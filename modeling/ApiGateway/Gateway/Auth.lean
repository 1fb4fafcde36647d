import ApiGateway.Core.Config

/-!
# Per-route authentication

API keys and HS256 tokens.  Token decoding is the `jsonwebtoken` crate's: its
signature and expiry checks are the parameter `decode`, a function of the clock,
the token and the secret, as the library documents it.
-/

namespace ApiGateway
namespace Gateway

open Library Core

/-- Seconds since the Unix epoch, as the token library reads them. -/
abbrev UnixTime := Nat

/-- A claim of a token.  Numbers are kept as the text they are printed as. -/
inductive JsonValue where
  | string (text : String)
  | number (digits : String)
  | bool (value : Bool)
  /-- Null, an array or an object. -/
  | other
  deriving DecidableEq, Repr

abbrev Claims := StringMap JsonValue

/-- Decoding with signature and expiry checks: the claims of a token that passes. -/
abbrev TokenDecoder := UnixTime → String → String → Option Claims

def valueAsString : JsonValue → Option String
  | .string text => some text
  | .number digits => some digits
  | .bool value => some (if value then "true" else "false")
  | .other => none

/-- The text after `Bearer `, or the whole text. -/
def stripBearer (auth : String) : String := (Text.stripPrefix auth "Bearer ").getD auth

/-- The key of a non-empty `x-api-key` header, or else the one in `authorization`. -/
def extractApiKey (headers : HeaderMap) : Option String :=
  match headers.getStr .xApiKey with
  | some key => if ¬ key.isEmpty then some key else fromAuthorization
  | none => fromAuthorization
where
  fromAuthorization : Option String := do
    let auth ← headers.getStr .authorization
    let key := Text.trim (stripBearer auth)
    if ¬ key.isEmpty then some key else none

def bearerToken (headers : HeaderMap) : Option String := do
  let auth ← headers.getStr .authorization
  let token ← Text.stripPrefix auth "Bearer "
  let trimmed := Text.trim token
  if ¬ trimmed.isEmpty then some trimmed else none

/-- The required claims, in iteration order; the first one missing is reported. -/
def checkClaims (claims : Claims) : List (Sigma fun _ : String => String) → Except String Unit
  | [] => .ok ()
  | ⟨name, want⟩ :: required =>
      -- A missing claim and a claim that has no text fail alike.
      if (claims.lookup name).bind valueAsString ≠ some want then
        .error "required claim not satisfied"
      else
        checkClaims claims required

def validateJwt (decode : TokenDecoder) (now : UnixTime) (headers : HeaderMap) (secret : String)
    (required : StringMap String) : Except String Unit :=
  match bearerToken headers with
  | none => .error "missing bearer token"
  | some token =>
      match decode now token secret with
      | none => .error "invalid or expired token"
      | some claims => checkClaims claims required.entries

/-- Check a request against the policy of a route. -/
def authorize (decode : TokenDecoder) (now : UnixTime) (policy : AuthPolicy)
    (headers : HeaderMap) : Except String Unit :=
  match policy with
  | .none => .ok ()
  | .apiKey keys =>
      match extractApiKey headers with
      | none => .error "missing API key"
      | some presented =>
          if keys.any (· == presented) then .ok () else .error "invalid API key"
  | .jwt secret requiredClaims => validateJwt decode now headers secret requiredClaims

end Gateway
end ApiGateway
