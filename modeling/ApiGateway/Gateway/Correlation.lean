import ApiGateway.Gateway.CacheFidelity
import ApiGateway.Gateway.Answers
import ApiGateway.Gateway.Mediation

/-!
# The correlation id, end to end

Every response of a handler and every request it sends carries the correlation id of the
request it serves, once.  The id is set after the configured transforms and after the
headers of a stored response have been put back, so neither can replace it.

Setting a header does nothing when the value is rejected.  A text that was read from a
header is accepted again, and so is the text of a UUID; that UUIDs are written in the
usual form is what the run is assumed to provide.
-/

namespace ApiGateway
namespace Gateway

open Library Core Program

/-- The hyphenated form of a UUID: 36 lower-case hexadecimal digits and hyphens. -/
def isUuidText (text : String) : Bool :=
  text.toList.length == 36 && text.toList.all "0123456789abcdef-".toList.contains

/-- Exactly one `x-request-id`, and it reads as the given text. -/
def CarriesId (headers : HeaderMap) (id : String) : Prop :=
  ∃ value, headers.getAll .xRequestId = [value] ∧ value.toStr = some id

/-- The text is accepted as a header value and reads back as itself. -/
def IsIdText (id : String) : Prop :=
  ∃ value, HeaderValue.fromStr id = some value ∧ value.toStr = some id

/-- What was read from a header is accepted again. -/
theorem isIdText_of_getStr {headers : HeaderMap} {name : HeaderName} {id : String}
    (h : headers.getStr name = some id) : IsIdText id := by
  obtain ⟨value, -, hvalue⟩ := Option.bind_eq_some_iff.mp h
  exact ⟨value, HeaderValue.fromStr_of_toStr hvalue, hvalue⟩

theorem isIdText_of_isUuidText {id : String} (h : isUuidText id = true) : IsIdText id := by
  have hchars := (Bool.and_eq_true_iff.mp h).2
  apply HeaderValue.fromStr_readable
  intro char hchar
  have hdigit : char ∈ "0123456789abcdef-".toList := by
    simpa using List.all_eq_true.mp hchars char hchar
  exact HeaderValue.isReadable_of_all (by decide) char hdigit

/-! ## Headers that carry the id -/

/-- Setting the correlation header puts the id in the place of whatever was there. -/
theorem carriesId_setHeader {id : String} (h : IsIdText id) (headers : HeaderMap) :
    CarriesId (setHeader headers correlationHeader id) id := by
  obtain ⟨value, hvalue, htext⟩ := h
  exact ⟨value, getAll_setHeader_of_fromStr fromBytes_correlationHeader hvalue, htext⟩

/-- Setting another header leaves the id. -/
theorem CarriesId.setHeader {headers : HeaderMap} {id : String} (h : CarriesId headers id)
    {name value : String} {set : HeaderName} (hset : HeaderName.fromBytes name = some set)
    (hname : .xRequestId ≠ set) : CarriesId (Gateway.setHeader headers name value) id := by
  obtain ⟨carried, hcarried, htext⟩ := h
  exact ⟨carried, (getAll_setHeader_of_ne hset hname).trans hcarried, htext⟩

theorem carriesId_error {id : String} (h : IsIdText id) (status : StatusCode)
    (message : String) : CarriesId (error status message id).headers id :=
  carriesId_setHeader h _

theorem CarriesId.addRatelimitHeaders {headers : HeaderMap} {id : String}
    (h : CarriesId headers id) (limit remaining : UInt32) (reset : UInt64) :
    CarriesId (Gateway.addRatelimitHeaders headers limit remaining reset) id := by
  have hlimit : HeaderName.fromBytes "x-ratelimit-limit" =
      some ⟨"x-ratelimit-limit", by decide⟩ := by decide
  have hremaining : HeaderName.fromBytes "x-ratelimit-remaining" =
      some ⟨"x-ratelimit-remaining", by decide⟩ := by decide
  have hreset : HeaderName.fromBytes "x-ratelimit-reset" =
      some ⟨"x-ratelimit-reset", by decide⟩ := by decide
  have hretry : HeaderName.fromBytes "retry-after" = some ⟨"retry-after", by decide⟩ := by decide
  unfold Gateway.addRatelimitHeaders
  exact (((h.setHeader hlimit (by decide)).setHeader hremaining (by decide)).setHeader hreset
    (by decide)).setHeader hretry (by decide)

/-- A cache hit carries the id of the request it answers, not that of the request whose
response was stored. -/
theorem carriesId_cachedResponse {id : String} (h : IsIdText id) (hit : CachedResponse)
    (runtime : RouteRuntime) : CarriesId (cachedResponse hit runtime id).headers id :=
  carriesId_setHeader h _

namespace Exchange

variable {exchange : Exchange} (hid : IsIdText exchange.correlation)

include hid

theorem carriesId_fwdHeaders : CarriesId exchange.fwdHeaders exchange.correlation :=
  carriesId_setHeader hid _

theorem carriesId_answerFor (result : SendResult) :
    CarriesId (exchange.answerFor result).headers exchange.correlation := by
  cases result with
  | error e => exact carriesId_error hid _ _
  | ok resp =>
      have hout : CarriesId (exchange.outHeaders resp) exchange.correlation :=
        carriesId_setHeader hid _
      have hmarked : CarriesId (Gateway.setHeader (exchange.outHeaders resp) "x-cache" "MISS")
          exchange.correlation := hout.setHeader fromBytes_xCache (by decide)
      show CarriesId (exchange.relayed resp).headers exchange.correlation
      unfold relayed
      split
      · split
        · exact carriesId_error hid _ _
        · exact hmarked
      · show CarriesId (if exchange.cacheEnabled then _ else _) exchange.correlation
        split
        · exact hmarked
        · exact hout

theorem carriesId_of_answered {made : List (UpstreamId × SendResult)} {status : StatusCode}
    {response : Response} (h : exchange.Served made status response) :
    CarriesId response.headers exchange.correlation := by
  cases h with
  | limited decision =>
      have herror : CarriesId
          (exchange.errorResponse .tooManyRequests "rate limit exceeded").headers
          exchange.correlation := carriesId_error hid _ _
      rw [Exchange.limitedResponse]
      exact herror.addRatelimitHeaders decision.limit 0 decision.resetSecs
  | hit entry => exact carriesId_cachedResponse hid _ _
  | attempted h =>
      cases h with
      | refused _ _ message _ => exact carriesId_error hid _ _
      | relayed _ last _ => exact carriesId_answerFor hid last.2

end Exchange

/-! ## Every run -/

/-- A request is sent with the correlation id of the request it is sent for. -/
def SendsOwnId (request : Request) (history : List (Event effects)) : Op → Prop
  | .send _ sent =>
      ∃ id, correlationOf request history = some id ∧ (IsIdText id → CarriesId sent.headers id)
  | _ => True

theorem handle_sendsOwnId (decode : TokenDecoder) (state : GatewayState) (incoming : Incoming) :
    (handle decode state incoming).Guarded (SendsOwnId incoming.request) [] := by
  apply handle_guarded_of_serve
  · intro history op hop
    cases op with
    | send _ _ => exact absurd hop (by simp [frameKinds])
    | _ => trivial
  · intro route runtime correlation started history _ _ _ hcorrelation
    refine Makes.guarded (Exchange.serve_makes decode _) fun later op hop => ?_
    cases op with
    | send _ sent =>
        refine ⟨correlation, correlationOf_append hcorrelation later, fun hid => ?_⟩
        have hheaders : sent.headers = _ := hop
        rw [hheaders]
        exact Exchange.carriesId_fwdHeaders hid
    | _ => trivial

/-- The response of a handler carries its correlation id. -/
theorem handle_answersOwnId {decode : TokenDecoder} {state : GatewayState} {incoming : Incoming}
    {trace : List (Event effects)} {response : Response}
    (h : Returns (handle decode state incoming) trace response) :
    ∃ id, correlationOf incoming.request trace = some id ∧
      (IsIdText id → CarriesId response.headers id) := by
  obtain ⟨opening, inner, correlation, started, rfl, -, hcorrelation, hcases⟩ := handle_returns h
  refine ⟨correlation, ?_, fun hid => ?_⟩
  · rw [List.append_assoc]
    exact correlationOf_append hcorrelation _
  · rcases hcases with ⟨-, -, rfl⟩ | ⟨route, -, ⟨-, -, rfl⟩ | ⟨runtime, -, hserved⟩⟩
    · exact carriesId_error hid _ _
    · exact carriesId_error hid _ _
    · obtain ⟨status, hanswered, -⟩ := Exchange.serve_answers decode _ inner response hserved
      refine Exchange.carriesId_of_answered ?_ hanswered
      exact hid

/-- A correlation id is a header text, when the identifiers taken are UUIDs. -/
theorem isIdText_of_correlationOf {request : Request} {history : List (Event effects)}
    {id : String} (h : correlationOf request history = some id)
    (huuid : ∀ event ∈ history, ∀ text, takenUuid event = some text → isUuidText text = true) :
    IsIdText id := by
  unfold correlationOf at h
  split at h
  · rename_i text htext
    obtain rfl := Option.some.inj h
    exact isIdText_of_getStr htext
  · obtain ⟨event, hevent, htaken⟩ := List.exists_of_findSome?_eq_some h
    exact isIdText_of_isUuidText (huuid event hevent id htaken)

/-- **The correlation id, end to end.**  In every run of the gateway, when the identifiers
drawn in it are UUIDs, the response of every finished handler has exactly one
`x-request-id` and it is the id of the request: the text of its own first `x-request-id`,
or else the UUID drawn for it.  The same holds of every request sent to an upstream for
it.  So the id of another request is never in a response, a cache hit or not. -/
theorem correlation_end_to_end (decode : TokenDecoder) (config : GatewayConfig)
    (redisReachable : Bool) (actions : List GatewayAction)
    (huuid : ∀ entry ∈ (gatewayAfter decode config redisReachable actions).log,
      ∀ text, takenUuid entry.2 = some text → isUuidText text = true)
    (index : Nat) (thread : Thread effects Incoming Response)
    (hthread : (gatewayAfter decode config redisReachable actions).threads[index]? =
      some thread) :
    (∀ response, thread.rest = .done response →
      ∃ id, correlationOf thread.request.request thread.history = some id ∧
        CarriesId response.headers id) ∧
      ∀ upstream sent result,
        (⟨.send upstream sent, result⟩ : Event effects) ∈ thread.history →
          ∃ id, correlationOf thread.request.request thread.history = some id ∧
            CarriesId sent.headers id := by
  have hcoherent := gatewayAfter_coherent decode config redisReachable actions
  have hsteps := hcoherent.steps index thread hthread
  have hown : ∀ event ∈ thread.history, ∀ text, takenUuid event = some text →
      isUuidText text = true := by
    intro event hevent
    rw [hcoherent.history index thread hthread] at hevent
    obtain ⟨entry, hentry, hmine⟩ := List.mem_filterMap.mp hevent
    split at hmine
    · obtain rfl := Option.some.inj hmine
      exact huuid entry hentry
    · cases hmine
  constructor
  · intro response hdone
    rw [hdone] at hsteps
    obtain ⟨id, hid, hcarries⟩ := handle_answersOwnId hsteps
    exact ⟨id, hid, hcarries (isIdText_of_correlationOf hid hown)⟩
  · intro upstream sent result hsent
    obtain ⟨before, after, hhistory⟩ := List.append_of_mem hsent
    obtain ⟨id, hid, hcarries⟩ :=
      (handle_sendsOwnId decode _ thread.request).allowed_of_mem hsteps hhistory
    have hwhole : correlationOf thread.request.request thread.history = some id := by
      rw [hhistory]
      exact correlationOf_append hid _
    exact ⟨id, hwhole, hcarries (isIdText_of_correlationOf hwhole hown)⟩

/-- A UUID, and an upstream that answers. -/
def taggedInput : Input :=
  { uuid := "6f1c3a52-0b7e-4d19-9c55-2f8e61d0a7b4"
    upstream := fun _ _ => .ok ⟨.ok, [], ⟨[], true⟩⟩ }

/-- One request without an `x-request-id`, to its response. -/
def taggedRun : List GatewayAction :=
  .arrive echoIncoming :: List.replicate 21 (.advance 0 taggedInput)

def taggedPool : GatewayPool := gatewayAfter noTokens { routes := [echoRoute] } false taggedRun

/-- The response carries the UUID that was drawn for the request. -/
theorem correlation_end_to_end_tagged :
    ∃ thread response, taggedPool.threads[0]? = some thread ∧ thread.rest = .done response ∧
      CarriesId response.headers taggedInput.uuid := by
  have hall : taggedPool.log.all (fun entry => (takenUuid entry.2).all isUuidText) = true := rfl
  have huuid : ∀ entry ∈ taggedPool.log, ∀ text, takenUuid entry.2 = some text →
      isUuidText text = true := by
    intro entry hentry text htext
    have hentry' := List.all_eq_true.mp hall entry hentry
    rwa [htext] at hentry'
  obtain ⟨thread, response, hthread, hdone, hown⟩ :
      ∃ thread response, taggedPool.threads[0]? = some thread ∧ thread.rest = .done response ∧
        correlationOf thread.request.request thread.history = some taggedInput.uuid :=
    ⟨_, _, rfl, rfl, rfl⟩
  obtain ⟨id, hid, hcarries⟩ := (correlation_end_to_end noTokens { routes := [echoRoute] } false
    taggedRun huuid 0 thread hthread).1 response hdone
  obtain rfl := Option.some.inj (hid.symm.trans hown)
  exact ⟨thread, response, hthread, hdone, hcarries⟩

end Gateway
end ApiGateway
