import ApiGateway.Gateway.TransformLaws
import ApiGateway.Library.CommaList

/-!
# Headers nominated by `Connection`

Besides the fixed list of hop-by-hop headers, a message may nominate further ones: every
name that a `Connection` line lists is meant for the next hop only.  The gateway strips the
fixed list and does not read the tokens.  So a nominated header that is present gets through
unless it is in the fixed list, or is one of those that the gateway sets itself.
-/

namespace ApiGateway
namespace Gateway

open Library Core

def connection : HeaderName := ⟨"connection", by decide⟩

/-- The optional white space of the header grammar. -/
def isOws (char : Char) : Bool := char == ' ' || char == '\t'

/-- The names that one line of the header lists.  An entry that is no header name nominates
nothing. -/
def tokensOf (value : HeaderValue) : List HeaderName :=
  (CommaList.entries isOws (value.bytes.map fun byte => Char.ofNat byte.toNat)).filterMap
    fun token => HeaderName.fromBytes (String.ofList token)

/-- The names that the message nominates in any of its lines. -/
def nominated (headers : HeaderMap) : List HeaderName :=
  (headers.getAll connection).flatMap tokensOf

/-- No nominated header is in the result, apart from the gateway's own values. -/
def HopsEnd (headers result : HeaderMap) (own : HeaderName → Option String) : Prop :=
  ∀ name ∈ nominated headers, ∀ value ∈ result.getAll name,
    (own name).bind HeaderValue.fromStr = some value

/-- What the gateway makes its own text for a header from. -/
def ownArgument (clientIp host scheme : String) (name : HeaderName) : Option String :=
  if name = .xForwardedFor then some clientIp
  else if name = .xRealIp then some clientIp
  else if name = .xForwardedHost then some host
  else if name = .xForwardedProto then some scheme
  else none

/-- What came in is well formed, so the chain is as soon as the address is. -/
theorem isSome_fromStr_chainText (incoming : HeaderMap) (clientIp : String) :
    (HeaderValue.fromStr (chainText incoming clientIp)).isSome =
      (HeaderValue.fromStr clientIp).isSome := by
  unfold chainText
  cases hline : incoming.getStr .xForwardedFor with
  | none => rfl
  | some line =>
      obtain ⟨value, -, hvalue⟩ := Option.bind_eq_some_iff.mp hline
      have hbytes : Text.asBytes (line ++ ", " ++ clientIp) =
          value.bytes ++ Text.asBytes ", " ++ Text.asBytes clientIp := by
        rw [← HeaderValue.asBytes_of_toStr hvalue]
        simp [Text.asBytes]
      have hseparator : (Text.asBytes ", ").all isHeaderValueByte = true := by decide
      rw [HeaderValue.isSome_fromStr, HeaderValue.isSome_fromStr, Option.map_some, Option.getD_some, hbytes,
        List.all_append, List.all_append, value.valid, hseparator]
      rfl

theorem isSome_ownText (incoming : HeaderMap) (clientIp host scheme : String)
    (name : HeaderName) :
    ((ownText incoming clientIp host scheme name).bind HeaderValue.fromStr).isSome =
      ((ownArgument clientIp host scheme name).bind HeaderValue.fromStr).isSome := by
  unfold ownText ownArgument
  by_cases hchain : name = .xForwardedFor
  · rw [if_pos hchain, if_pos hchain]
    exact isSome_fromStr_chainText incoming clientIp
  · rw [if_neg hchain, if_neg hchain]

/-- A result that has the gateway's own value or what came in end to end ends the hop of a
name exactly when there is such a value, or nothing came in end to end. -/
theorem only_own_iff {own : Option HeaderValue} {values : List HeaderValue} :
    (∀ value ∈ own.elim values fun v => [v], own = some value) ↔ own.isSome = true ∨ values = [] := by
  cases own with
  | none =>
      simp only [Option.elim_none, Option.isSome_none, Bool.false_eq_true, false_or]
      constructor
      · intro h
        exact List.eq_nil_iff_forall_not_mem.mpr fun value hvalue => (nomatch h value hvalue)
      · rintro rfl
        exact nofun
  | some v => simp

theorem getAll_endToEnd_eq_nil_iff (headers : HeaderMap) (name : HeaderName) :
    (endToEnd headers).getAll name = [] ↔
      isHopByHop name.text = true ∨ headers.getAll name = [] := by
  rw [getAll_endToEnd]
  cases isHopByHop name.text with
  | true => simp
  | false => simp

/-- **When the headers nominated by `Connection` end here.**  For every request and every
response: no nominated header of the request is forwarded, apart from the values the gateway
sets itself, exactly when each nominated header that is present is in the fixed list or is
one that the gateway sets, from a text that is a header value; and no nominated header of the
response is returned exactly when each one that is present is in the fixed list. -/
theorem connection_nominated_iff (request response : HeaderMap)
    (clientIp host scheme : String) :
    (HopsEnd request (forwardedRequestHeaders request clientIp host scheme)
          (ownText request clientIp host scheme) ↔
        ∀ name ∈ nominated request, request.getAll name ≠ [] →
          isHopByHop name.text = true ∨
            ((ownArgument clientIp host scheme name).bind HeaderValue.fromStr).isSome = true) ∧
      (HopsEnd response (filteredResponseHeaders response) (fun _ => none) ↔
        ∀ name ∈ nominated response, response.getAll name ≠ [] →
          isHopByHop name.text = true) := by
  constructor
  · refine forall₂_congr fun name _ => ?_
    rw [getAll_forwardedRequestHeaders, only_own_iff, isSome_ownText, getAll_endToEnd_eq_nil_iff]
    tauto
  · refine forall₂_congr fun name _ => ?_
    -- The gateway sets nothing of its own in a response.
    show (∀ value ∈ (none : Option HeaderValue).elim ((endToEnd response).getAll name) fun v => [v],
      none = some value) ↔ _
    rw [only_own_iff, getAll_endToEnd_eq_nil_iff]
    simp only [Option.isSome_none, Bool.false_eq_true, false_or]
    tauto

/-- A message that nominates one of its own headers, in capitals and among other tokens. -/
def nominatingHeaders : HeaderMap :=
  [(connection, ⟨Text.asBytes "close, X-Debug", by decide⟩),
    (⟨"x-debug", by decide⟩, ⟨Text.asBytes "1", by decide⟩)]

/-- The nominated header is forwarded, and it is returned when the message is a response. -/
theorem nominated_header_gets_through :
    ¬ (∀ (request : HeaderMap) (clientIp host scheme : String),
        HopsEnd request (forwardedRequestHeaders request clientIp host scheme)
          (ownText request clientIp host scheme)) ∧
      ¬ ∀ response : HeaderMap,
        HopsEnd response (filteredResponseHeaders response) fun _ => none := by
  have hnominated : (⟨"x-debug", by decide⟩ : HeaderName) ∈ nominated nominatingHeaders := by
    decide
  constructor
  · intro hclaim
    have hown := hclaim nominatingHeaders "10.0.0.1" "example.com" "http" _ hnominated
      ⟨Text.asBytes "1", by decide⟩ (by decide)
    exact absurd hown (by decide)
  · intro hclaim
    have hown := hclaim nominatingHeaders _ hnominated ⟨Text.asBytes "1", by decide⟩ (by decide)
    cases hown

end Gateway
end ApiGateway
