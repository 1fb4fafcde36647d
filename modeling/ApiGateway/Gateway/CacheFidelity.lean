import ApiGateway.Gateway.CacheSharing
import ApiGateway.Gateway.TransformLaws

/-!
# A hit beside the response it was stored from

On a miss the headers of the upstream are relayed as a multimap.  For the cache they are
turned into pairs of texts, and a hit builds a map from these pairs, with one value for
each name, and applies the configured transforms again.  So a header of which the
upstream sent two values has one on a hit, the last, and a value that is not text is
missing on a hit.  `hit_reproduces_miss_iff` says that nothing else is lost.
-/

namespace ApiGateway
namespace Gateway

open Library Core Program

/-- The same status, the same body, and the same values of every header but the cache mark
and the correlation id. -/
structure Reproduces (hit miss : Response) : Prop where
  status : hit.status = miss.status
  body : hit.body = miss.body
  headers : ∀ header, header ≠ .xCache → header ≠ .xRequestId →
    hit.headers.getAll header = miss.headers.getAll header

/-- The headers of an upstream response that reach the client as they are: not
hop-by-hop, and neither set nor removed by the transforms or by the gateway. -/
structure Relayed (transforms : HeaderTransforms) (header : HeaderName) : Prop where
  notMark : header ≠ .xCache
  notCorrelation : header ≠ .xRequestId
  endToEnd : isHopByHop header.text = false
  notAdded : lastSet (additions transforms) header = none
  notRemoved : removes transforms.remove header = false

/-- Every relayed header has at most one value, and that value is text. -/
def SingleTexts (transforms : HeaderTransforms) (headers : HeaderMap) : Prop :=
  ∀ header, Relayed transforms header → (headers.getAll header).length ≤ 1 ∧
    ∀ value ∈ headers.getAll header, value.toStr.isSome = true

/-! ## Through the pairs of texts -/

/-- Of a stored name the last value that is text is set again. -/
theorem lastSet_headerPairs (headers : HeaderMap) (header : HeaderName) :
    lastSet (Exchange.headerPairs headers) header =
      ((headers.getAll header).filter fun value => value.toStr.isSome).getLast? := by
  induction headers with
  | nil => rfl
  | cons field headers ih =>
      rw [HeaderMap.getAll_cons]
      cases htext : field.2.toStr with
      | none =>
          have hpairs : Exchange.headerPairs (field :: headers) = Exchange.headerPairs headers := by
            simp [Exchange.headerPairs, htext]
          rw [hpairs, ih]
          by_cases hname : field.1 = header
          · simp [hname, htext]
          · simp [hname]
      | some text =>
          have hpairs : Exchange.headerPairs (field :: headers) =
              (field.1.text, text) :: Exchange.headerPairs headers := by
            simp [Exchange.headerPairs, htext]
          have hsets : setsValue field.1.text text header =
              if field.1 = header then some field.2 else none := by
            simp [setsValue, HeaderValue.fromStr_of_toStr htext]
          rw [hpairs, lastSet, ih, hsets]
          by_cases hname : field.1 = header
          · rw [if_pos hname, if_pos hname, List.filter_cons_of_pos (by simp [htext]),
              List.getLast?_cons]
            cases ((HeaderMap.getAll headers header).filter fun value => value.toStr.isSome).getLast? with
            | none => rfl
            | some last => rfl
          · rw [if_neg hname, if_neg hname, Option.or_none]

/-- A list is its own last text when it is empty or a single text. -/
theorem eq_lastText_iff {α : Type} (isText : α → Bool) (values : List α) :
    (values.filter isText).getLast?.toList = values ↔
      values.length ≤ 1 ∧ ∀ value ∈ values, isText value = true := by
  constructor
  · intro h
    have hlength : values.length ≤ 1 := by
      rw [← h]
      exact Option.length_toList_le
    refine ⟨hlength, ?_⟩
    intro value hvalue
    rw [← h] at hvalue
    have hmem := List.mem_of_getLast? (Option.mem_toList.mp hvalue)
    exact (List.mem_filter.mp hmem).2
  · rintro ⟨hlength, htexts⟩
    rw [List.filter_eq_self.mpr htexts]
    match values with
    | [] => rfl
    | [value] => rfl
    | _ :: _ :: rest =>
        simp only [List.length_cons] at hlength
        omega

theorem fromBytes_xCache : HeaderName.fromBytes "x-cache" = some .xCache := by decide

theorem fromBytes_correlationHeader :
    HeaderName.fromBytes correlationHeader = some .xRequestId := by decide

section Exchange

variable (exchange : Exchange) (resp : UpstreamResponse)

/-- The values of a header on a miss. -/
theorem getAll_outHeaders {header : HeaderName} (hmark : header ≠ .xCache)
    (hcorrelation : header ≠ .xRequestId) :
    (setHeader (exchange.outHeaders resp) "x-cache" "MISS").getAll header =
      match lastSet (additions exchange.runtime.config.responseHeaders) header with
      | some value => [value]
      | none =>
          if removes exchange.runtime.config.responseHeaders.remove header ||
            isHopByHop header.text then [] else resp.headers.getAll header := by
  rw [getAll_setHeader_of_ne fromBytes_xCache hmark]
  unfold Exchange.outHeaders
  rw [getAll_setHeader_of_ne fromBytes_correlationHeader hcorrelation, getAll_applyTransforms,
    filteredResponseHeaders, getAll_endToEnd]
  cases lastSet (additions exchange.runtime.config.responseHeaders) header with
  | some value => rfl
  | none =>
      cases removes exchange.runtime.config.responseHeaders.remove header with
      | true => rfl
      | false => simp

/-- The values of a header on a hit. -/
theorem getAll_cachedResponse {header : HeaderName} (hmark : header ≠ .xCache)
    (hcorrelation : header ≠ .xRequestId) (hit : CachedResponse) (runtime : RouteRuntime)
    (correlation : String) :
    (cachedResponse hit runtime correlation).headers.getAll header =
      match lastSet (additions runtime.config.responseHeaders) header with
      | some value => [value]
      | none =>
          if removes runtime.config.responseHeaders.remove header then []
          else (lastSet hit.headers header).toList := by
  unfold cachedResponse buildResponse
  simp only
  rw [getAll_setHeader_of_ne fromBytes_correlationHeader hcorrelation,
    getAll_setHeader_of_ne fromBytes_xCache hmark, getAll_applyTransforms,
    getAll_foldl_setHeader]
  cases lastSet hit.headers header with
  | none => rfl
  | some value => rfl

/-- When a response is stored, what is stored and what is returned. -/
theorem finishResponse_stored :
    Ensures (exchange.finishResponse resp) fun trace response =>
      ∀ id cache key entry, storeEvent id cache key entry ∈ trace →
        entry.status = 200 ∧ entry.headers = Exchange.headerPairs (exchange.outHeaders resp) ∧
        entry.body = resp.body.bytes ∧
        response = buildResponse .ok (setHeader (exchange.outHeaders resp) "x-cache" "MISS")
          (.buffered resp.body.bytes) := by
  have hrecord : Ensures (exchange.record resp.status) fun trace _ =>
      ∀ id cache key entry, storeEvent id cache key entry ∉ trace := by
    intro trace _ hreturns id cache key entry hmem
    have hkind := Makes.of_mem (exchange.record_makesKinds resp.status) hreturns hmem
    simp [storeEvent] at hkind
  refine ensures_bind hrecord fun recorded _ hnone => ?_
  -- What has been counted is no store: a store is among the calls after it.
  have hafter : ∀ (later : List (Event effects)) id cache key entry,
      storeEvent id cache key entry ∈ recorded ++ later → storeEvent id cache key entry ∈ later :=
    fun later id cache key entry hmem =>
      (List.mem_append.mp hmem).resolve_left (hnone id cache key entry)
  split
  · rename_i hstores
    have hok : resp.status = .ok := by
      simp only [Exchange.stores, Bool.and_eq_true] at hstores
      exact beq_iff_eq.mp hstores.1.1.2
    refine ensures_perform fun _ => ?_
    split
    · refine ensures_done fun id cache key entry hmem => ?_
      have hlate := hafter _ id cache key entry hmem
      simp [storeEvent] at hlate
    · cases hcache : exchange.runtime.cache with
      | none =>
          refine ensures_done fun id cache key entry hmem => ?_
          have hlate := hafter _ id cache key entry hmem
          simp [storeEvent] at hlate
      | some cache' =>
          refine ensures_perform fun _ => ensures_done fun id cache key entry hmem => ?_
          have hlate := hafter _ id cache key entry hmem
          simp only [storeEvent, List.mem_cons, List.not_mem_nil, or_false, Sigma.mk.injEq,
            reduceCtorEq, false_and, false_or, Op.cachePut.injEq] at hlate
          obtain ⟨⟨-, -, -, hstatus, hheaders, hbody⟩, -⟩ := hlate
          exact ⟨by rw [hstatus, hok]; rfl, hheaders, hbody, by rw [hok]⟩
  · refine ensures_done fun id cache key entry hmem => ?_
    exact absurd (hafter [] id cache key entry hmem) List.not_mem_nil

/-- One header agrees on hit and miss when it is not relayed, or has at most one value,
a text. -/
theorem getAll_hit_eq_miss_iff {header : HeaderName} (hmark : header ≠ .xCache)
    (hcorrelation : header ≠ .xRequestId) {hit : CachedResponse}
    (hheaders : hit.headers = Exchange.headerPairs (exchange.outHeaders resp))
    (correlation : String) :
    (cachedResponse hit exchange.runtime correlation).headers.getAll header =
        (setHeader (exchange.outHeaders resp) "x-cache" "MISS").getAll header ↔
      (Relayed exchange.runtime.config.responseHeaders header →
        (resp.headers.getAll header).length ≤ 1 ∧
          ∀ value ∈ resp.headers.getAll header, value.toStr.isSome = true) := by
  have hout : (exchange.outHeaders resp).getAll header =
      (setHeader (exchange.outHeaders resp) "x-cache" "MISS").getAll header :=
    (getAll_setHeader_of_ne fromBytes_xCache hmark).symm
  rw [getAll_cachedResponse hmark hcorrelation, hheaders, lastSet_headerPairs, hout,
    getAll_outHeaders exchange resp hmark hcorrelation]
  cases hadded : lastSet (additions exchange.runtime.config.responseHeaders) header with
  | some value =>
      simp only [true_iff]
      intro hrelayed
      have := hrelayed.notAdded
      rw [hadded] at this
      cases this
  | none =>
      cases hremoved : removes exchange.runtime.config.responseHeaders.remove header with
      | true =>
          simp only [Bool.true_or, if_true, true_iff]
          intro hrelayed
          have := hrelayed.notRemoved
          rw [hremoved] at this
          cases this
      | false =>
          cases hhop : isHopByHop header.text with
          | true =>
              simp only [Bool.or_true, if_true, Bool.false_eq_true, if_false, List.filter_nil,
                List.getLast?_nil, Option.toList_none, true_iff]
              intro hrelayed
              have := hrelayed.endToEnd
              rw [hhop] at this
              cases this
          | false =>
              simp only [Bool.or_self, Bool.false_eq_true, if_false]
              rw [eq_lastText_iff]
              have hrelayed : Relayed exchange.runtime.config.responseHeaders header :=
                ⟨hmark, hcorrelation, hhop, hadded, hremoved⟩
              exact ⟨fun h _ => h, fun h => h hrelayed⟩

end Exchange

/-- **When a hit reproduces the miss.**  For every response that was stored and every later
hit on the entry: the hit has the status, the body and the headers of the response that was
returned when the entry was stored exactly if the upstream sent at most one value of each
header that is relayed, and that value is text. -/
theorem hit_reproduces_miss_iff (exchange : Exchange) (resp : UpstreamResponse)
    (trace : List (Event effects)) (miss : Response)
    (hreturns : Returns (exchange.finishResponse resp) trace miss)
    (id : RouteId) (cache : ResponseCache) (key : String) (hit : CachedResponse)
    (hstored : storeEvent id cache key hit ∈ trace) (correlation : String) :
    Reproduces (cachedResponse hit exchange.runtime correlation) miss ↔
      SingleTexts exchange.runtime.config.responseHeaders resp.headers := by
  obtain ⟨hstatus, hheaders, hbody, rfl⟩ :=
    finishResponse_stored exchange resp trace miss hreturns id cache key hit hstored
  constructor
  · intro h header hrelayed
    have hagree := h.headers header hrelayed.notMark hrelayed.notCorrelation
    exact (getAll_hit_eq_miss_iff exchange resp hrelayed.notMark hrelayed.notCorrelation hheaders
      correlation).mp hagree hrelayed
  · intro h
    refine ⟨?_, ?_, ?_⟩
    · show (StatusCode.fromU16 hit.status).getD .ok = StatusCode.ok
      rw [hstatus]
      rfl
    · show Body.buffered hit.body = Body.buffered resp.body.bytes
      rw [hbody]
    · intro header hmark hcorrelation
      exact (getAll_hit_eq_miss_iff exchange resp hmark hcorrelation hheaders correlation).mpr
        (h header)

/-- A GET on the cached route, when its upstream has answered. -/
def profileExchange : Exchange :=
  .new (.build profileConfig false) (profileIncoming "k-alice") "profile"
    (.fromConfig 0 profileRoute) "id" 0

/-- An upstream response with the given values of one header. -/
def varyResponse (values : List String) : UpstreamResponse where
  status := .ok
  headers := values.flatMap fun value => setHeader [] "vary" value
  body := ⟨Text.asBytes "alice", true⟩

def varyRun (values : List String) : Execution effects World Response :=
  (profileExchange.finishResponse (varyResponse values)).exec interpreter (fun _ => {}) .initial

/-- What is stored of such a response. -/
def varyEntry (values : List String) : CachedResponse where
  status := 200
  headers := Exchange.headerPairs (profileExchange.outHeaders (varyResponse values))
  body := Text.asBytes "alice"
  expiresAt := Duration.fromSecs 10

def profileCache : ResponseCache := .new (Duration.fromSecs 10) 1024

/-- A response with one value of the header is reproduced. -/
theorem hit_reproduces_single_vary :
    Reproduces (cachedResponse (varyEntry ["accept"]) profileExchange.runtime "other")
      (varyRun ["accept"]).value := by
  have hstored : storeEvent 0 profileCache profileExchange.cacheKey (varyEntry ["accept"]) ∈
      (varyRun ["accept"]).trace :=
    List.mem_of_getElem? (i := 3) rfl
  refine (hit_reproduces_miss_iff profileExchange (varyResponse ["accept"]) _ _
    (exec_returns _ _ _ _) 0 profileCache _ _ hstored "other").mpr ?_
  intro header _
  obtain ⟨name, value, hfields, htext⟩ : ∃ name value,
      (varyResponse ["accept"]).headers = [(name, value)] ∧ value.toStr.isSome = true :=
    ⟨_, _, rfl, by decide⟩
  rw [hfields, HeaderMap.getAll_cons]
  by_cases hname : name = header
  · simp [hname, htext]
  · simp [hname]

/-- Of two values of a header a hit has one. -/
theorem hit_drops_repeated_value :
    ∃ hit, storeEvent 0 profileCache profileExchange.cacheKey hit ∈
        (varyRun ["accept", "origin"]).trace ∧
      Returns (profileExchange.finishResponse (varyResponse ["accept", "origin"]))
        (varyRun ["accept", "origin"]).trace (varyRun ["accept", "origin"]).value ∧
      ¬ Reproduces (cachedResponse hit profileExchange.runtime "other")
        (varyRun ["accept", "origin"]).value := by
  refine ⟨varyEntry ["accept", "origin"], List.mem_of_getElem? (i := 3) rfl,
    exec_returns _ _ _ _, ?_⟩
  intro h
  have hvary := h.headers ⟨"vary", by decide⟩ (by decide) (by decide)
  have hlengths := congrArg List.length hvary
  exact absurd hlengths (by decide +kernel)

end Gateway
end ApiGateway
