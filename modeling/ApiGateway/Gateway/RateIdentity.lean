import ApiGateway.Gateway.Proxy

/-!
# Whose bucket a request is counted in

With the scope `ApiKey` the bucket of a request is chosen by `rateKey`, and its identity
is established by the policy of the route.  Both read the headers `x-api-key` and
`authorization`, by rules of their own: the policy for keys skips an empty `x-api-key`,
the policy for tokens does not look at it, and `rateKey` takes it as it is.

`overriding` is the text by which a request moves itself to a bucket that is not its
own.  `sameBucket_iff` says exactly for which pairs of admitted requests buckets and
credentials agree.
-/

namespace ApiGateway
namespace Gateway

open Library Core

/-- The credential that a policy looks at. -/
def presented (policy : AuthPolicy) (headers : HeaderMap) : Option String :=
  match policy with
  | .none => none
  | .apiKey _ => extractApiKey headers
  | .jwt _ _ => bearerToken headers

/-- The text that `rateKey` takes from `x-api-key` where the policy takes its credential
from elsewhere, when it is not the credential itself. -/
def overriding (policy : AuthPolicy) (headers : HeaderMap) : Option String :=
  match policy, headers.getStr .xApiKey with
  | .apiKey _, some text => if text.isEmpty then some text else none
  | .jwt _ _, some text => if bearerToken headers = some text then none else some text
  | _, _ => none

/-- The identity part of the bucket of a request. -/
def bucketText (headers : HeaderMap) : String :=
  match headers.getStr .xApiKey with
  | some key => key
  | none =>
      match headers.getStr .authorization with
      | some auth => Text.trim (stripBearer auth)
      | none => "anon"

theorem rateKey_apiKey (route clientIp : String) (headers : HeaderMap) :
    rateKey .apiKey route clientIp headers = route ++ ":key:" ++ bucketText headers := rfl

/-- Two requests of a route share a bucket when the identity parts agree. -/
theorem rateKey_apiKey_eq_iff (route clientIp clientIp' : String) (headers headers' : HeaderMap) :
    rateKey .apiKey route clientIp headers = rateKey .apiKey route clientIp' headers' ↔
      bucketText headers = bucketText headers' := by
  rw [rateKey_apiKey, rateKey_apiKey]
  constructor
  · intro h
    have hlists := congrArg String.toList h
    simp only [String.toList_append] at hlists
    exact String.toList_injective (List.append_cancel_left hlists)
  · intro h
    rw [h]

theorem fromAuthorization_eq_some {headers : HeaderMap} {key : String}
    (h : extractApiKey.fromAuthorization headers = some key) :
    ∃ auth, headers.getStr .authorization = some auth ∧ key = Text.trim (stripBearer auth) ∧
      key.isEmpty = false := by
  unfold extractApiKey.fromAuthorization at h
  cases hauth : headers.getStr .authorization with
  | none =>
      rw [hauth] at h
      cases h
  | some auth =>
      rw [hauth] at h
      simp only [Option.bind_eq_bind, Option.bind_some] at h
      split at h
      · rename_i hnonempty
        obtain rfl := Option.some.inj h
        exact ⟨auth, rfl, rfl, by simpa using hnonempty⟩
      · cases h

theorem bearerToken_eq_some {headers : HeaderMap} {token : String}
    (h : bearerToken headers = some token) :
    ∃ auth, headers.getStr .authorization = some auth ∧ token = Text.trim (stripBearer auth) := by
  unfold bearerToken at h
  cases hauth : headers.getStr .authorization with
  | none =>
      rw [hauth] at h
      cases h
  | some auth =>
      rw [hauth] at h
      simp only [Option.bind_eq_bind, Option.bind_some] at h
      cases hstripped : Text.stripPrefix auth "Bearer " with
      | none =>
          rw [hstripped] at h
          cases h
      | some rest =>
          rw [hstripped] at h
          simp only [Option.bind_some] at h
          split at h
          · obtain rfl := Option.some.inj h
            refine ⟨auth, rfl, ?_⟩
            rw [stripBearer, hstripped]
            rfl
          · cases h

/-- **Which bucket a request with a credential is counted in**: its own, unless its
`x-api-key` overrides it. -/
theorem bucketText_eq {policy : AuthPolicy} {headers : HeaderMap} {credential : String}
    (h : presented policy headers = some credential) :
    bucketText headers = (overriding policy headers).getD credential := by
  cases policy with
  | none => cases h
  | apiKey keys =>
      have hextract : extractApiKey headers = some credential := h
      unfold extractApiKey at hextract
      unfold bucketText overriding
      cases hkey : headers.getStr .xApiKey with
      | none =>
          rw [hkey] at hextract
          obtain ⟨auth, hauth, rfl, -⟩ := fromAuthorization_eq_some hextract
          rw [hauth]
          rfl
      | some key =>
          rw [hkey] at hextract
          cases hempty : key.isEmpty with
          | true =>
              simp only [hempty, if_true]
              rfl
          | false =>
              simp only [hempty, Bool.false_eq_true, not_false_eq_true, if_true] at hextract
              simp only [hempty, Bool.false_eq_true, if_false, Option.getD_none]
              exact Option.some.inj hextract
  | jwt secret required =>
      have htoken : bearerToken headers = some credential := h
      obtain ⟨auth, hauth, hcredential⟩ := bearerToken_eq_some htoken
      unfold bucketText overriding
      cases hkey : headers.getStr .xApiKey with
      | none =>
          rw [hauth]
          exact hcredential.symm
      | some key =>
          simp only [htoken]
          by_cases hsame : some credential = some key
          · rw [if_pos hsame]
            exact (Option.some.inj hsame).symm
          · rw [if_neg hsame]
            rfl

/-- An overriding text is not the credential. -/
theorem overriding_ne {policy : AuthPolicy} {headers : HeaderMap} {credential text : String}
    (h : presented policy headers = some credential)
    (hoverriding : overriding policy headers = some text) : text ≠ credential := by
  cases policy with
  | none => cases h
  | apiKey keys =>
      have hextract : extractApiKey headers = some credential := h
      unfold extractApiKey at hextract
      unfold overriding at hoverriding
      cases hkey : headers.getStr .xApiKey with
      | none =>
          rw [hkey] at hoverriding
          cases hoverriding
      | some key =>
          rw [hkey] at hextract hoverriding
          simp only at hextract hoverriding
          by_cases hempty : key.isEmpty = true
          · rw [if_pos hempty] at hoverriding
            rw [if_neg (not_not.mpr hempty)] at hextract
            obtain rfl := Option.some.inj hoverriding
            obtain ⟨-, -, -, hnonempty⟩ := fromAuthorization_eq_some hextract
            rintro rfl
            rw [hempty] at hnonempty
            cases hnonempty
          · rw [if_neg hempty] at hoverriding
            cases hoverriding
  | jwt secret required =>
      have htoken : bearerToken headers = some credential := h
      unfold overriding at hoverriding
      cases hkey : headers.getStr .xApiKey with
      | none =>
          rw [hkey] at hoverriding
          cases hoverriding
      | some key =>
          rw [hkey] at hoverriding
          simp only [htoken] at hoverriding
          split at hoverriding
          · cases hoverriding
          · rename_i hdiffers
            obtain rfl := Option.some.inj hoverriding
            exact fun hsame => hdiffers (congrArg some hsame.symm)

/-- A policy admits only requests that present a credential. -/
theorem presented_of_authorize {decode : TokenDecoder} {now : UnixTime} {policy : AuthPolicy}
    {headers : HeaderMap} (hpolicy : policy ≠ .none)
    (h : authorize decode now policy headers = .ok ()) :
    ∃ credential, presented policy headers = some credential := by
  cases policy with
  | none => exact absurd rfl hpolicy
  | apiKey keys =>
      show ∃ credential, extractApiKey headers = some credential
      unfold authorize at h
      cases hextract : extractApiKey headers with
      | none =>
          rw [hextract] at h
          cases h
      | some credential => exact ⟨credential, rfl⟩
  | jwt secret required =>
      show ∃ credential, bearerToken headers = some credential
      unfold authorize validateJwt at h
      cases htoken : bearerToken headers with
      | none =>
          rw [htoken] at h
          cases h
      | some credential => exact ⟨credential, rfl⟩

/-- The pairs of requests whose buckets agree exactly when their credentials do.  Two
requests without an overriding text are such a pair; with one, its text must not be the
credential of the other, and the credentials must differ; with two, the texts must agree
exactly when the credentials do. -/
def BucketsFollow (policy : AuthPolicy) (headers headers' : HeaderMap) : Prop :=
  match overriding policy headers, overriding policy headers' with
  | none, none => True
  | some text, none =>
      presented policy headers' ≠ some text ∧
        presented policy headers ≠ presented policy headers'
  | none, some text =>
      presented policy headers ≠ some text ∧
        presented policy headers ≠ presented policy headers'
  | some text, some text' =>
      text = text' ↔ presented policy headers = presented policy headers'

theorem bucketText_agrees_iff {policy : AuthPolicy} {headers headers' : HeaderMap}
    {credential credential' : String} (h : presented policy headers = some credential)
    (h' : presented policy headers' = some credential') :
    ((bucketText headers = bucketText headers') ↔
      presented policy headers = presented policy headers') ↔
        BucketsFollow policy headers headers' := by
  have hbucket := bucketText_eq h
  have hbucket' := bucketText_eq h'
  unfold BucketsFollow
  rw [hbucket, hbucket', h, h']
  cases hover : overriding policy headers with
  | none =>
      cases hover' : overriding policy headers' with
      | none => simp
      | some text' =>
          have hne := overriding_ne h' hover'
          simp only [Option.getD_none, Option.getD_some, Option.some.injEq, ne_eq]
          constructor
          · intro hiff
            refine ⟨fun hequal => ?_, fun hsame => ?_⟩
            · exact hne (hequal.symm.trans (hiff.mp hequal))
            · exact hne ((hiff.mpr hsame).symm.trans hsame)
          · rintro ⟨hother, hdiffer⟩
            exact ⟨fun hequal => absurd hequal hother, fun hsame => absurd hsame hdiffer⟩
  | some text =>
      cases hover' : overriding policy headers' with
      | none =>
          have hne := overriding_ne h hover
          simp only [Option.getD_none, Option.getD_some, Option.some.injEq, ne_eq]
          constructor
          · intro hiff
            refine ⟨fun hequal => ?_, fun hsame => ?_⟩
            · exact hne (hequal.symm.trans (hiff.mp hequal.symm).symm)
            · exact hne ((hiff.mpr hsame).trans hsame.symm)
          · rintro ⟨hother, hdiffer⟩
            exact ⟨fun hequal => absurd hequal.symm hother, fun hsame => absurd hsame hdiffer⟩
      | some text' => simp

/-- **Buckets and credentials.**  On a route with the scope `ApiKey` and a policy, two
admitted requests share a bucket exactly when they present the same credential, if and
only if `BucketsFollow` holds of their headers. -/
theorem sameBucket_iff (decode : TokenDecoder) (route : RouteConfig) (rl : RateLimitConfig)
    (hscope : rl.scope = .apiKey) (hpolicy : route.auth ≠ .none) (now now' : UnixTime)
    (clientIp clientIp' : String) (headers headers' : HeaderMap)
    (hadmitted : authorize decode now route.auth headers = .ok ())
    (hadmitted' : authorize decode now' route.auth headers' = .ok ()) :
    ((rateKey rl.scope route.name clientIp headers =
        rateKey rl.scope route.name clientIp' headers') ↔
      presented route.auth headers = presented route.auth headers') ↔
        BucketsFollow route.auth headers headers' := by
  obtain ⟨credential, hcredential⟩ := presented_of_authorize hpolicy hadmitted
  obtain ⟨credential', hcredential'⟩ := presented_of_authorize hpolicy hadmitted'
  rw [hscope, rateKey_apiKey_eq_iff]
  exact bucketText_agrees_iff hcredential hcredential'

/-- A route for two keys, limited per key. -/
def keyedRoute : RouteConfig :=
  { name := "orders", upstreams := [{ url := "http://orders:8081" }]
    auth := .apiKey ["k1", "k2"]
    rateLimit := some { scope := .apiKey, limit := 1 } }

/-- Headers with the given two fields. -/
def keyHeaders (xApiKey authorization : String) : HeaderMap :=
  setHeader (setHeader [] "x-api-key" xApiKey) "authorization" authorization

/-- The holder of a key who sends it in either header has one bucket. -/
theorem sameBucket_iff_either_header :
    authorize (fun _ _ _ => none) 0 keyedRoute.auth (keyHeaders "k1" "Bearer k2") = .ok () ∧
      authorize (fun _ _ _ => none) 0 keyedRoute.auth
        (setHeader [] "authorization" "Bearer k1") = .ok () ∧
      ((rateKey .apiKey "orders" "10.0.0.1" (keyHeaders "k1" "Bearer k2") =
          rateKey .apiKey "orders" "10.0.0.2" (setHeader [] "authorization" "Bearer k1")) ↔
        presented keyedRoute.auth (keyHeaders "k1" "Bearer k2") =
          presented keyedRoute.auth (setHeader [] "authorization" "Bearer k1")) := by
  refine ⟨by decide, by decide, ?_⟩
  exact (sameBucket_iff (fun _ _ _ => none) keyedRoute { scope := .apiKey, limit := 1 } rfl
    nofun 0 0 "10.0.0.1" "10.0.0.2" _ _ (by decide) (by decide)).mpr trivial

/-- With an empty `x-api-key` the holders of two keys share a bucket. -/
theorem empty_key_shares_bucket :
    authorize (fun _ _ _ => none) 0 keyedRoute.auth (keyHeaders "" "Bearer k1") = .ok () ∧
      authorize (fun _ _ _ => none) 0 keyedRoute.auth (keyHeaders "" "Bearer k2") = .ok () ∧
      ¬ ((rateKey .apiKey "orders" "10.0.0.1" (keyHeaders "" "Bearer k1") =
            rateKey .apiKey "orders" "10.0.0.1" (keyHeaders "" "Bearer k2")) ↔
          presented keyedRoute.auth (keyHeaders "" "Bearer k1") =
            presented keyedRoute.auth (keyHeaders "" "Bearer k2")) := by
  refine ⟨by decide, by decide, fun h => ?_⟩
  exact absurd (h.mp (by decide)) (by decide)

end Gateway
end ApiGateway
