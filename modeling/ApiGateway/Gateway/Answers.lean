import ApiGateway.Gateway.AttemptLoop

/-!
# What each stage answers and counts

`requestLabels` lists the increments of the request counter in a trace.  One lemma for
each stage says which responses it can answer with, and what it has counted by then;
`serve_answers` puts them together.  `Served` relates the attempts of a request, the
status that is counted and the response.
-/

namespace ApiGateway
namespace Gateway

open Library Core Program

/-- The labels of one increment of the request counter. -/
structure RequestLabel where
  route : String
  method : String
  status : String
  deriving DecidableEq, Repr

def requestLabel : Event effects → Option RequestLabel
  | ⟨.inc (.requests route method status), _⟩ => some ⟨route, method, status⟩
  | _ => none

/-- The increments of the request counter, in order. -/
def requestLabels (trace : List (Event effects)) : List RequestLabel :=
  trace.filterMap requestLabel

@[simp] theorem requestLabels_nil : requestLabels [] = [] := rfl

@[simp] theorem requestLabels_cons (event : Event effects) (trace : List (Event effects)) :
    requestLabels (event :: trace) = (requestLabel event).toList ++ requestLabels trace := by
  unfold requestLabels
  rw [List.filterMap_cons]
  cases requestLabel event with
  | none => rfl
  | some _ => rfl

@[simp] theorem requestLabels_append (first second : List (Event effects)) :
    requestLabels (first ++ second) = requestLabels first ++ requestLabels second :=
  List.filterMap_append

theorem requestLabel_eq_none {event : Event effects} (h : event.1.kind ≠ .metric) :
    requestLabel event = none := by
  obtain ⟨op, answer⟩ := event
  cases op with
  | inc counter =>
      cases counter with
      | requests route method status => exact absurd rfl h
      | _ => rfl
  | _ => rfl

/-- A stage without metrics counts nothing. -/
theorem requestLabels_of_makesKinds {α : Type} {kinds : List OpKind}
    {program : GatewayProgram α} (h : MakesKinds kinds program) (hkinds : .metric ∉ kinds) :
    Ensures program fun trace _ => requestLabels trace = [] := by
  intro trace value hreturns
  refine List.filterMap_eq_nil_iff.mpr fun event hevent => requestLabel_eq_none ?_
  intro hmetric
  exact hkinds (hmetric ▸ Makes.of_mem h hreturns hevent)

namespace Exchange

/-- The labels under which an answer of the given status is counted. -/
def label (exchange : Exchange) (status : StatusCode) : RequestLabel :=
  ⟨exchange.routeName, exchange.method.asStr, status.asStr⟩

/-- The status that is counted when the result of an attempt answers the request: it is
taken from the head of the response. -/
def countedFor : SendResult → StatusCode
  | .ok resp => resp.status
  | .error _ => .badGateway

theorem record_ensures (exchange : Exchange) (status : StatusCode) :
    Ensures (exchange.record status) fun trace _ =>
      notes trace = [] ∧ requestLabels trace = [exchange.label status] :=
  ensures_perform fun _ => ensures_call fun _ => ensures_done ⟨rfl, rfl⟩

/-- The response for a request over the limit. -/
def limitedResponse (exchange : Exchange) (decision : RateDecision) : Response :=
  let resp := exchange.errorResponse .tooManyRequests "rate limit exceeded"
  { resp with headers := addRatelimitHeaders resp.headers decision.limit 0 decision.resetSecs }

/-! ## The stages before the attempts -/

theorem authenticate_answers (decode : TokenDecoder) (exchange : Exchange) :
    Ensures (exchange.authenticate decode) fun trace rejection =>
      (rejection = none ∧ requestLabels trace = []) ∨
        ∃ reason, rejection = some (exchange.errorResponse .unauthorized reason) ∧
          requestLabels trace = [exchange.label .unauthorized] := by
  refine ensures_perform fun clock => ?_
  split
  · exact ensures_done (Or.inl ⟨rfl, rfl⟩)
  · rename_i reason _
    refine ensures_perform fun _ => ensures_bind (exchange.record_ensures .unauthorized)
      fun _ _ h => ensures_done (Or.inr ⟨reason, rfl, ?_⟩)
    simp [requestLabel, h.2]

theorem limitRate_answers (exchange : Exchange) :
    Ensures exchange.limitRate fun trace rejection =>
      (rejection = none ∧ requestLabels trace = []) ∨
        ∃ decision, rejection = some (exchange.limitedResponse decision) ∧
          requestLabels trace = [exchange.label .tooManyRequests] := by
  unfold limitRate
  split
  · exact ensures_done (Or.inl ⟨rfl, rfl⟩)
  · refine ensures_bind (requestLabels_of_makesKinds (checkLimit_makesKinds _ _ _ _)
      (by decide)) fun checking decision hchecking => ?_
    split
    · refine ensures_perform fun _ => ensures_bind (exchange.record_ensures .tooManyRequests)
        fun _ _ h => ensures_done (Or.inr ⟨decision, rfl, ?_⟩)
      simp [requestLabel, hchecking, h.2]
    · exact ensures_done (Or.inl ⟨rfl, by simpa using hchecking⟩)

theorem lookupCache_answers (exchange : Exchange) :
    Ensures exchange.lookupCache fun trace hit =>
      (hit = none ∧ requestLabels trace = []) ∨
        ∃ entry, hit = some (cachedResponse entry exchange.runtime exchange.correlation) ∧
          requestLabels trace =
            [exchange.label ((StatusCode.fromU16 entry.status).getD .ok)] := by
  unfold lookupCache
  split
  · exact ensures_done (Or.inl ⟨rfl, rfl⟩)
  · refine ensures_perform fun found => ?_
    split
    · rename_i entry
      refine ensures_perform fun _ => ensures_bind (exchange.record_ensures _)
        fun _ _ h => ensures_done (Or.inr ⟨entry, rfl, ?_⟩)
      simp [requestLabel, h.2]
    · exact ensures_perform fun _ => ensures_done (Or.inl ⟨rfl, rfl⟩)

/-! ## The attempts -/

theorem finishResponse_counts (exchange : Exchange) (resp : UpstreamResponse) :
    Ensures (exchange.finishResponse resp) fun trace _ =>
      requestLabels trace = [exchange.label resp.status] := by
  refine ensures_bind (exchange.record_ensures resp.status) fun _ _ h => ?_
  split
  · refine ensures_perform fun _ => ?_
    split
    · exact ensures_done (by simp [requestLabel, h.2])
    · split
      · exact ensures_perform fun _ => ensures_done (by simp [requestLabel, h.2])
      · exact ensures_done (by simp [requestLabel, h.2])
  · exact ensures_done (by simp [h.2])

/-- An attempt counts the request when it answers it. -/
theorem settle_counts (exchange : Exchange) (attempt index : Nat) (upstream : Upstream)
    (result : SendResult) :
    Ensures (exchange.settle attempt index upstream result) fun trace settled =>
      requestLabels trace =
        if settled.isSome then [exchange.label (countedFor result)] else [] := by
  unfold settle
  split
  · rename_i resp
    simp only
    split
    · refine ensures_perform fun _ => ensures_perform fun _ => ensures_perform fun _ => ?_
      split
      · exact ensures_done rfl
      · exact ensures_bind (exchange.finishResponse_counts resp) fun _ _ h =>
          ensures_done (by simp [requestLabel, h, countedFor])
    · refine ensures_perform fun _ => ensures_bind (exchange.finishResponse_counts resp)
        fun _ _ h => ensures_done (by simp [requestLabel, h, countedFor])
  · refine ensures_perform fun _ => ensures_perform fun _ => ensures_perform fun _ => ?_
    split
    · exact ensures_done rfl
    · exact ensures_bind (exchange.record_ensures .badGateway) fun _ _ h =>
        ensures_done (by simp [requestLabel, h.2, countedFor])

theorem tryUpstream_answers (exchange : Exchange) (bodyBytes : Bytes) (attempt index : Nat)
    (upstream : Upstream) :
    Ensures (exchange.tryUpstream bodyBytes attempt index upstream) fun trace settled =>
      ∃ result, sends trace = [(⟨exchange.runtime.id, index⟩, result)] ∧
        ((settled = none ∧ exchange.retryable result = true ∧ requestLabels trace = []) ∨
          (settled = some (exchange.answerFor result) ∧
            requestLabels trace = [exchange.label (countedFor result)])) := by
  refine ensures_perform fun _ => ensures_perform fun result => ensures_perform fun _ =>
    ensures_perform fun _ => ensures_perform fun _ => ?_
  refine ensures_bind ((exchange.settle_ensures attempt index upstream result).and
    (exchange.settle_counts attempt index upstream result)) fun settling settled h => ?_
  obtain ⟨⟨hnotes, rfl⟩, hlabels⟩ := h
  refine ensures_perform fun _ => ensures_done ⟨result, ?_, ?_⟩
  · show _ = [(index, result)].map fun made => (exchange.attempted made, made.2)
    apply sends_of_notes
    simpa [note] using hnotes
  · split at hlabels
    · rename_i hretry
      refine Or.inl ⟨if_pos hretry, (Bool.and_eq_true_iff.mp hretry).1, ?_⟩
      simpa [requestLabel] using hlabels
    · rename_i hfinal
      refine Or.inr ⟨if_neg hfinal, ?_⟩
      simpa [requestLabel] using hlabels

/-- How the attempts of a request are answered: the attempts in order, the status that is
counted, and the response. -/
inductive LoopAnswered (exchange : Exchange) :
    List (UpstreamId × SendResult) → StatusCode → Response → Prop
  /-- The gateway answers by itself, after attempts that failed. -/
  | refused (made : List (UpstreamId × SendResult)) (status : StatusCode) (message : String)
      (hmade : ∀ attempt ∈ made, exchange.retryable attempt.2 = true) :
      LoopAnswered exchange made status (exchange.errorResponse status message)
  /-- The last attempt answers the request. -/
  | relayed (made : List (UpstreamId × SendResult)) (last : UpstreamId × SendResult)
      (hmade : ∀ attempt ∈ made, exchange.retryable attempt.2 = true) :
      LoopAnswered exchange (made ++ [last]) (countedFor last.2) (exchange.answerFor last.2)

/-- A failed attempt comes before the attempts that follow it. -/
theorem LoopAnswered.cons {exchange : Exchange} {made : List (UpstreamId × SendResult)}
    {status : StatusCode} {response : Response} (h : exchange.LoopAnswered made status response)
    {first : UpstreamId × SendResult} (hfirst : exchange.retryable first.2 = true) :
    exchange.LoopAnswered (first :: made) status response := by
  cases h with
  | refused _ _ message hmade =>
      exact .refused (first :: made) status message (List.forall_mem_cons.mpr ⟨hfirst, hmade⟩)
  | relayed before last hbefore =>
      exact .relayed (first :: before) last (List.forall_mem_cons.mpr ⟨hfirst, hbefore⟩)

theorem attemptLoop_answers (exchange : Exchange) (bodyBytes : Bytes) (remaining attempt : Nat)
    (excluded : List Nat) :
    Ensures (exchange.attemptLoop bodyBytes remaining attempt excluded) fun trace response =>
      ∃ status, exchange.LoopAnswered (sends trace) status response ∧
        requestLabels trace = [exchange.label status] := by
  -- Induction over the rounds left: only the round that answers counts.
  induction remaining generalizing attempt excluded with
  | zero =>
      refine ensures_bind (exchange.record_ensures .badGateway) fun _ _ h => ensures_done ?_
      refine ⟨.badGateway, ?_, by simp [h.2]⟩
      simpa [sends_eq_nil_of_notes h.1] using
        LoopAnswered.refused [] .badGateway "all upstream attempts failed" nofun
  | succ remaining ih =>
      have hpick := Balancer.pick_makesKinds exchange.runtime.balancer exchange.runtime.id excluded
      refine ensures_bind ((notes_of_makesKinds hpick (by decide)).and
        (requestLabels_of_makesKinds hpick (by decide))) fun picking picked h => ?_
      obtain ⟨hnotes, hlabels⟩ := h
      have hsends : sends picking = [] := sends_eq_nil_of_notes hnotes
      cases picked with
      | none =>
          refine ensures_bind (exchange.record_ensures .serviceUnavailable)
            fun _ _ h => ensures_done ⟨.serviceUnavailable, ?_, by simp [hlabels, h.2]⟩
          simpa [hsends, sends_eq_nil_of_notes h.1] using
            LoopAnswered.refused [] .serviceUnavailable "no healthy upstream" nofun
      | some picked =>
          refine ensures_bind (exchange.tryUpstream_answers bodyBytes attempt picked.1 picked.2)
            fun trying settled h => ?_
          obtain ⟨result, hsent, ⟨rfl, hretry, hnone⟩ | ⟨rfl, hcounted⟩⟩ := h
          · refine (ih (attempt + 1) (excluded ++ [picked.1])).mono fun later response h => ?_
            obtain ⟨status, hanswered, hlater⟩ := h
            refine ⟨status, ?_, by simp [hlabels, hnone, hlater]⟩
            simpa [hsends, hsent] using hanswered.cons hretry
          · refine ensures_done ⟨countedFor result, ?_, by simp [hlabels, hcounted]⟩
            simpa [hsends, hsent] using
              LoopAnswered.relayed [] (⟨exchange.runtime.id, picked.1⟩, result) nofun

/-! ## The whole request -/

/-- How a request is answered by the stages. -/
inductive Served (exchange : Exchange) :
    List (UpstreamId × SendResult) → StatusCode → Response → Prop
  | limited (decision : RateDecision) :
      Served exchange [] .tooManyRequests (exchange.limitedResponse decision)
  | hit (entry : CachedResponse) :
      Served exchange [] ((StatusCode.fromU16 entry.status).getD .ok)
        (cachedResponse entry exchange.runtime exchange.correlation)
  | attempted {made : List (UpstreamId × SendResult)} {status : StatusCode} {response : Response}
      (h : exchange.LoopAnswered made status response) : Served exchange made status response

theorem proxy_answers (exchange : Exchange) :
    Ensures exchange.proxy fun trace response =>
      ∃ status, exchange.LoopAnswered (sends trace) status response ∧
        requestLabels trace = [exchange.label status] := by
  refine ensures_perform fun _ => ?_
  split
  · refine ensures_bind (exchange.record_ensures .payloadTooLarge) fun _ _ h =>
      ensures_done ⟨.payloadTooLarge, ?_, by simp [requestLabel, h.2]⟩
    rw [sends_readRequestBody, List.append_nil, sends_eq_nil_of_notes h.1]
    exact LoopAnswered.refused [] .payloadTooLarge "request body too large" nofun
  · rename_i bodyBytes _
    refine (exchange.attemptLoop_answers bodyBytes _ 0 []).mono fun trace response h => ?_
    obtain ⟨status, hanswered, hlabels⟩ := h
    refine ⟨status, ?_, by simpa [requestLabel] using hlabels⟩
    rwa [sends_readRequestBody]

/-- **How a request is answered.**  Whatever is answered to its calls, the request is
counted once. -/
theorem serve_answers (decode : TokenDecoder) (exchange : Exchange) :
    Ensures (exchange.serve decode) fun trace response =>
      ∃ status, exchange.Served (sends trace) status response ∧
        requestLabels trace = [exchange.label status] := by
  have hauth := (notes_of_makesKinds (exchange.authenticate_makesKinds decode) (by decide)).mono
    fun _ _ => sends_eq_nil_of_notes
  have hlimit := (notes_of_makesKinds exchange.limitRate_makesKinds (by decide)).mono
    fun _ _ => sends_eq_nil_of_notes
  have hlookup := (notes_of_makesKinds exchange.lookupCache_makesKinds (by decide)).mono
    fun _ _ => sends_eq_nil_of_notes
  refine ensures_bind (hauth.and (exchange.authenticate_answers decode))
    fun auth rejection h => ?_
  obtain ⟨hauthed, ⟨rfl, hnone⟩ | ⟨reason, rfl, hlabels⟩⟩ := h
  · refine ensures_bind (hlimit.and exchange.limitRate_answers) fun limited rejection h => ?_
    obtain ⟨hlimited, ⟨rfl, hnone'⟩ | ⟨decision, rfl, hlabels⟩⟩ := h
    · refine ensures_bind (hlookup.and exchange.lookupCache_answers) fun looked hit h => ?_
      obtain ⟨hlooked, ⟨rfl, hnone''⟩ | ⟨entry, rfl, hlabels⟩⟩ := h
      · refine exchange.proxy_answers.mono fun proxied response h => ?_
        obtain ⟨status, hanswered, hlabels⟩ := h
        refine ⟨status, ?_, by simp [hnone, hnone', hnone'', hlabels]⟩
        simpa [hauthed, hlimited, hlooked] using Served.attempted hanswered
      · refine ensures_done ⟨_, ?_, by simpa [hnone, hnone'] using hlabels⟩
        simpa [hauthed, hlimited, hlooked] using Served.hit entry
    · refine ensures_done ⟨_, ?_, by simpa [hnone] using hlabels⟩
      simpa [hauthed, hlimited] using Served.limited decision
  · refine ensures_done ⟨_, ?_, by simpa using hlabels⟩
    simpa [hauthed] using
      Served.attempted (LoopAnswered.refused [] .unauthorized reason nofun)

end Exchange

/-- The calls that open a handler count nothing and send nothing. -/
theorem opening_silent {opening : List (Event effects)}
    (h : ∀ event ∈ opening, IsOpening event.1) :
    requestLabels opening = [] ∧ notes opening = [] := by
  constructor
  · refine List.filterMap_eq_nil_iff.mpr fun event hevent => ?_
    obtain ⟨op, answer⟩ := event
    rcases h _ hevent with rfl | rfl | rfl
    · rfl
    · rfl
    · rfl
  · refine List.filterMap_eq_nil_iff.mpr fun event hevent => note_eq_none ?_
    have hkind := kind_of_isOpening (h event hevent)
    have hnone : ∀ kind ∈ frameKinds, kind ∉ accountable := by decide
    exact hnone _ hkind

/-- The requests that a handler counts are those that are counted between its opening calls
and its last one. -/
theorem requestLabels_framed {opening : List (Event effects)}
    (h : ∀ event ∈ opening, IsOpening event.1) (inner : List (Event effects)) :
    requestLabels (opening ++ inner ++ [⟨.connectionsDec, ()⟩]) = requestLabels inner := by
  have hclosing : requestLabels [(⟨.connectionsDec, ()⟩ : Event effects)] = [] := rfl
  rw [requestLabels_append, requestLabels_append, (opening_silent h).1, hclosing,
    List.append_nil, List.nil_append]

/-- The same for the attempts of a handler. -/
theorem sends_framed {opening : List (Event effects)}
    (h : ∀ event ∈ opening, IsOpening event.1) (inner : List (Event effects)) :
    sends (opening ++ inner ++ [⟨.connectionsDec, ()⟩]) = sends inner := by
  have hclosing : sends [(⟨.connectionsDec, ()⟩ : Event effects)] = [] := rfl
  rw [sends_append, sends_append, sends_eq_nil_of_notes (opening_silent h).2, hclosing,
    List.append_nil, List.nil_append]

end Gateway
end ApiGateway
