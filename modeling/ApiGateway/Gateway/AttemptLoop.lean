import Mathlib.Data.List.Nodup
import ApiGateway.Gateway.Stages
import ApiGateway.Gateway.World

/-!
# The attempt loop

`LoopRun` is the attempt loop without its calls: the attempts in order, each with
the result of its call, and the response they lead to.  `attemptLoop_ensures` says
that every execution of the loop, whatever is answered to its calls, is such a run,
and what it has reported to breakers and counters is what the attempts of the run
call for.  The laws of the loop are then inductions over `LoopRun`.
-/

namespace ApiGateway
namespace Gateway

open Library Core Program

/-! ## What an execution reports -/

/-- The events that account for an attempt. -/
inductive Note where
  | sent (upstream : UpstreamId) (result : SendResult)
  | succeeded (upstream : UpstreamId)
  | failed (upstream : UpstreamId)
  | errorCounted (route : String)

def note : Event effects → Option Note
  | ⟨.send upstream _, result⟩ => some (.sent upstream result)
  | ⟨.recordSuccess upstream, _⟩ => some (.succeeded upstream)
  | ⟨.recordFailureAt upstream _ _, _⟩ => some (.failed upstream)
  | ⟨.inc (.upstreamErrors route), _⟩ => some (.errorCounted route)
  | _ => none

def notes (trace : List (Event effects)) : List Note := trace.filterMap note

/-- The attempts of a trace, in order, with their results. -/
def sends (trace : List (Event effects)) : List (UpstreamId × SendResult) :=
  (notes trace).filterMap fun
    | .sent upstream result => some (upstream, result)
    | _ => none

/-- The breakers that were told of a success, in order. -/
def successes (trace : List (Event effects)) : List UpstreamId :=
  (notes trace).filterMap fun
    | .succeeded upstream => some upstream
    | _ => none

/-- The breakers that were told of a failure, in order. -/
def failures (trace : List (Event effects)) : List UpstreamId :=
  (notes trace).filterMap fun
    | .failed upstream => some upstream
    | _ => none

/-- The routes whose `upstream_errors` counter was incremented, in order. -/
def errorIncrements (trace : List (Event effects)) : List String :=
  (notes trace).filterMap fun
    | .errorCounted route => some route
    | _ => none

@[simp] theorem notes_nil : notes [] = [] := rfl

@[simp] theorem notes_cons (event : Event effects) (trace : List (Event effects)) :
    notes (event :: trace) = (note event).toList ++ notes trace := by
  unfold notes
  rw [List.filterMap_cons]
  cases note event with
  | none => rfl
  | some _ => rfl

@[simp] theorem notes_append (first second : List (Event effects)) :
    notes (first ++ second) = notes first ++ notes second :=
  List.filterMap_append

@[simp] theorem sends_append (first second : List (Event effects)) :
    sends (first ++ second) = sends first ++ sends second := by
  simp [sends]

theorem sends_eq_nil_of_notes {trace : List (Event effects)} (h : notes trace = []) :
    sends trace = [] := by
  rw [sends, h]
  rfl

/-- Reading the request body attempts nothing. -/
theorem sends_readRequestBody (answer : effects.Res Op.readRequestBody)
    (trace : List (Event effects)) :
    sends ((⟨Op.readRequestBody, answer⟩ : Event effects) :: trace) = sends trace := rfl

/-- Every attempt of a trace is one of its calls. -/
theorem mem_sends {trace : List (Event effects)} {made : UpstreamId × SendResult}
    (h : made ∈ sends trace) :
    ∃ request, (⟨.send made.1 request, made.2⟩ : Event effects) ∈ trace := by
  obtain ⟨written, hwritten, hsent⟩ := List.mem_filterMap.mp h
  obtain ⟨⟨op, answer⟩, hevent, hnote⟩ := List.mem_filterMap.mp hwritten
  cases op with
  | send upstream request =>
      obtain rfl := Option.some.inj hnote
      obtain rfl := Option.some.inj hsent
      exact ⟨request, hevent⟩
  | recordSuccess _ | recordFailureAt _ _ _ =>
      obtain rfl := Option.some.inj hnote
      cases hsent
  | inc counter =>
      cases counter with
      | upstreamErrors _ =>
          obtain rfl := Option.some.inj hnote
          cases hsent
      | _ => cases hnote
  | _ => cases hnote

theorem mem_sends_of_mem {trace : List (Event effects)} {upstream : UpstreamId}
    {request : OutgoingRequest} {result : SendResult}
    (h : (⟨.send upstream request, result⟩ : Event effects) ∈ trace) :
    (upstream, result) ∈ sends trace :=
  List.mem_filterMap.mpr ⟨.sent upstream result, List.mem_filterMap.mpr ⟨_, h, rfl⟩, rfl⟩

/-- The kinds of calls that account for an attempt. -/
def accountable : List OpKind := [.send, .outcome]

theorem note_eq_none {event : Event effects} (h : event.1.kind ∉ accountable) :
    note event = none := by
  obtain ⟨op, answer⟩ := event
  cases op with
  | send _ _ | recordSuccess _ | recordFailureAt _ _ _ => simp [accountable] at h
  | inc counter =>
      cases counter with
      | upstreamErrors _ => simp [accountable] at h
      | _ => rfl
  | _ => rfl

/-- A stage without such calls leaves no notes. -/
theorem notes_of_makesKinds {α : Type} {kinds : List OpKind} {program : GatewayProgram α}
    (h : MakesKinds kinds program) (hkinds : ∀ kind ∈ kinds, kind ∉ accountable) :
    Ensures program fun trace _ => notes trace = [] := by
  intro trace value hreturns
  refine List.filterMap_eq_nil_iff.mpr fun event hevent => note_eq_none ?_
  exact hkinds event.1.kind (Makes.of_mem h hreturns hevent)

/-! ## One attempt -/

/-- A response outside the server errors was received. -/
def SendResult.isSuccess : SendResult → Bool
  | .ok resp => !resp.status.isServerError
  | .error _ => false

theorem SendResult.isSuccess_iff {result : SendResult} :
    SendResult.isSuccess result = true ↔
      ∃ resp, result = .ok resp ∧ resp.status.isServerError = false := by
  cases result with
  | error e => exact ⟨nofun, fun ⟨_, h, _⟩ => nomatch h⟩
  | ok resp => simp [SendResult.isSuccess]

namespace Exchange

/-- The failures after which another upstream may be tried. -/
def retryable (exchange : Exchange) : SendResult → Bool
  | .ok resp => resp.status.isServerError && exchange.idempotent
  | .error e => exchange.idempotent || e.isConnect

/-- The response that an upstream response is relayed as. -/
def relayed (exchange : Exchange) (resp : UpstreamResponse) : Response :=
  if exchange.stores resp then
    if ¬ resp.body.complete then
      exchange.errorResponse .badGateway "upstream read failed"
    else
      buildResponse resp.status (setHeader (exchange.outHeaders resp) "x-cache" "MISS")
        (.buffered resp.body.bytes)
  else
    let headers := if exchange.cacheEnabled then
        setHeader (exchange.outHeaders resp) "x-cache" "MISS"
      else
        exchange.outHeaders resp
    buildResponse resp.status headers (.streamed resp.body)

/-- The response when no other upstream is tried. -/
def answerFor (exchange : Exchange) : SendResult → Response
  | .ok resp => exchange.relayed resp
  | .error _ => exchange.errorResponse .badGateway "upstream unavailable"

/-- What an attempt with the given result is accounted for. -/
def attemptNotes (exchange : Exchange) (attempt : Nat × SendResult) : List Note :=
  .sent ⟨exchange.runtime.id, attempt.1⟩ attempt.2 ::
    if SendResult.isSuccess attempt.2 then
      [.succeeded ⟨exchange.runtime.id, attempt.1⟩]
    else
      [.failed ⟨exchange.runtime.id, attempt.1⟩, .errorCounted exchange.routeName]

/-- Relaying yields the relayed response, whatever happens to the cache. -/
theorem finishResponse_value (exchange : Exchange) (resp : UpstreamResponse) :
    Ensures (exchange.finishResponse resp) fun _ response => response = exchange.relayed resp := by
  have hrecord : Ensures (exchange.record resp.status) fun _ _ => True := fun _ _ _ => trivial
  refine ensures_bind hrecord fun _ _ _ => ?_
  unfold relayed
  split
  · refine ensures_perform fun _ => ?_
    split
    · exact ensures_done rfl
    · split
      · exact ensures_perform fun _ => ensures_done rfl
      · exact ensures_done rfl
  · exact ensures_done rfl

theorem finishResponse_ensures (exchange : Exchange) (resp : UpstreamResponse) :
    Ensures (exchange.finishResponse resp) fun trace response =>
      notes trace = [] ∧ response = exchange.relayed resp := by
  intro trace response hreturns
  exact ⟨notes_of_makesKinds (exchange.finishResponse_makesKinds resp) (by decide) trace response
    hreturns, exchange.finishResponse_value resp trace response hreturns⟩

/-- The result of an attempt decides what is reported, and whether and how the
request is answered. -/
theorem settle_ensures (exchange : Exchange) (attempt index : Nat) (upstream : Upstream)
    (result : SendResult) :
    Ensures (exchange.settle attempt index upstream result) fun trace settled =>
      .sent ⟨exchange.runtime.id, index⟩ result :: notes trace =
          exchange.attemptNotes (index, result) ∧
        settled =
          if exchange.retryable result && decide (attempt + 1 < exchange.maxAttempts) then none
          else some (exchange.answerFor result) := by
  unfold settle
  split
  · rename_i resp
    simp only
    split
    · rename_i herror
      refine ensures_perform fun _ => ensures_perform fun _ => ensures_perform fun _ => ?_
      split
      · rename_i hretry
        refine ensures_done ⟨?_, ?_⟩
        · simp [note, attemptNotes, SendResult.isSuccess, herror]
        · simp only [Bool.and_eq_true, decide_eq_true_eq] at hretry
          simp [retryable, herror, hretry]
      · rename_i hretry
        refine ensures_bind (exchange.finishResponse_ensures resp) fun _ _ h => ?_
        obtain ⟨hnotes, rfl⟩ := h
        refine ensures_done ⟨?_, ?_⟩
        · simp [note, attemptNotes, SendResult.isSuccess, herror, hnotes]
        · simp only [retryable, herror, Bool.true_and, if_neg hretry]
          rfl
    · rename_i hok
      refine ensures_perform fun _ => ?_
      refine ensures_bind (exchange.finishResponse_ensures resp) fun _ _ h => ?_
      obtain ⟨hnotes, rfl⟩ := h
      refine ensures_done ⟨?_, ?_⟩
      · simp [note, attemptNotes, SendResult.isSuccess, hok, hnotes]
      · simp [retryable, hok, answerFor]
  · rename_i e
    refine ensures_perform fun _ => ensures_perform fun _ => ensures_perform fun _ => ?_
    split
    · rename_i hretry
      refine ensures_done ⟨?_, ?_⟩
      · simp [note, attemptNotes, SendResult.isSuccess]
      · exact (if_pos hretry).symm
    · rename_i hretry
      refine ensures_bind (notes_of_makesKinds (exchange.record_makesKinds _) (by decide))
        fun _ _ hnotes => ?_
      refine ensures_done ⟨?_, ?_⟩
      · simp [note, attemptNotes, SendResult.isSuccess, hnotes]
      · exact (if_neg hretry).symm

theorem tryUpstream_ensures (exchange : Exchange) (bodyBytes : Bytes) (attempt index : Nat)
    (upstream : Upstream) :
    Ensures (exchange.tryUpstream bodyBytes attempt index upstream) fun trace settled =>
      ∃ result, notes trace = exchange.attemptNotes (index, result) ∧
        settled =
          if exchange.retryable result && decide (attempt + 1 < exchange.maxAttempts) then none
          else some (exchange.answerFor result) := by
  refine ensures_perform fun _ => ensures_perform fun result => ensures_perform fun _ =>
    ensures_perform fun _ => ensures_perform fun _ => ?_
  refine ensures_bind (exchange.settle_ensures attempt index upstream result)
    fun settling settled h => ?_
  obtain ⟨hnotes, hsettled⟩ := h
  refine ensures_perform fun _ => ensures_done ⟨result, ?_, hsettled⟩
  simpa [note] using hnotes

/-! ## The whole loop -/

/-- The attempt loop without its calls: from the number of rounds left, the number of
the attempt and the excluded upstreams to the attempts and the response. -/
inductive LoopRun (exchange : Exchange) :
    Nat → Nat → List Nat → List (Nat × SendResult) → Response → Prop
  /-- No round is left. -/
  | exhausted (attempt : Nat) (excluded : List Nat) :
      LoopRun exchange 0 attempt excluded []
        (exchange.errorResponse .badGateway "all upstream attempts failed")
  /-- No upstream could be picked. -/
  | unserved (remaining attempt : Nat) (excluded : List Nat) :
      LoopRun exchange (remaining + 1) attempt excluded []
        (exchange.errorResponse .serviceUnavailable "no healthy upstream")
  /-- The result of the attempt answers the request. -/
  | answered (remaining attempt : Nat) (excluded : List Nat) (index : Nat) (result : SendResult)
      (hlt : index < exchange.runtime.balancer.upstreams.length) (hfresh : index ∉ excluded)
      (hfinal : ¬ (exchange.retryable result = true ∧ attempt + 1 < exchange.maxAttempts)) :
      LoopRun exchange (remaining + 1) attempt excluded [(index, result)]
        (exchange.answerFor result)
  /-- The attempt failed and another upstream is tried. -/
  | retried (remaining attempt : Nat) (excluded : List Nat) (index : Nat) (result : SendResult)
      (attempts : List (Nat × SendResult)) (response : Response)
      (hlt : index < exchange.runtime.balancer.upstreams.length) (hfresh : index ∉ excluded)
      (hretry : exchange.retryable result = true) (hmore : attempt + 1 < exchange.maxAttempts)
      (hrest : LoopRun exchange remaining (attempt + 1) (excluded ++ [index]) attempts response) :
      LoopRun exchange (remaining + 1) attempt excluded ((index, result) :: attempts) response

/-- Every execution of the attempt loop is a run, and has reported what the attempts
of the run call for. -/
theorem attemptLoop_ensures (exchange : Exchange)
    (hupstreams : exchange.runtime.balancer.upstreams ≠ []) (bodyBytes : Bytes)
    (remaining attempt : Nat) (excluded : List Nat) :
    Ensures (exchange.attemptLoop bodyBytes remaining attempt excluded) fun trace response =>
      ∃ attempts, LoopRun exchange remaining attempt excluded attempts response ∧
        notes trace = attempts.flatMap exchange.attemptNotes := by
  have hrecord : ∀ status, Ensures (exchange.record status) fun trace _ => notes trace = [] :=
    fun status => notes_of_makesKinds (exchange.record_makesKinds status) (by decide)
  -- Induction over the rounds left; each round puts its attempt in front.
  induction remaining generalizing attempt excluded with
  | zero =>
      refine ensures_bind (hrecord _) fun _ _ hnotes => ensures_done ?_
      exact ⟨[], .exhausted attempt excluded, by simpa using hnotes⟩
  | succ remaining ih =>
      have hpick : Ensures (exchange.runtime.balancer.pick exchange.runtime.id excluded)
          fun trace picked => notes trace = [] ∧ ∀ index upstream,
            picked = some (index, upstream) →
              index < exchange.runtime.balancer.upstreams.length ∧ index ∉ excluded := by
        intro trace picked hreturns
        refine ⟨notes_of_makesKinds (Balancer.pick_makesKinds _ _ _) (by decide) trace picked
          hreturns, fun index upstream h => ?_⟩
        obtain ⟨hlt, hfresh, -⟩ :=
          Balancer.pick_ensures _ hupstreams _ _ trace picked hreturns index upstream h
        exact ⟨hlt, hfresh⟩
      refine ensures_bind hpick fun picking picked h => ?_
      obtain ⟨hpicking, hpicked⟩ := h
      cases picked with
      | none =>
          refine ensures_bind (hrecord _) fun _ _ hnotes => ensures_done ?_
          exact ⟨[], .unserved remaining attempt excluded, by simp [hpicking, hnotes]⟩
      | some picked =>
          obtain ⟨index, upstream⟩ := picked
          obtain ⟨hlt, hfresh⟩ := hpicked index upstream rfl
          refine ensures_bind (exchange.tryUpstream_ensures bodyBytes attempt index upstream)
            fun trying settled h => ?_
          obtain ⟨result, hnotes, rfl⟩ := h
          -- The loop goes on exactly after a retryable failure that is not the last allowed.
          by_cases hretry : exchange.retryable result = true ∧ attempt + 1 < exchange.maxAttempts
          · simp only [hretry.1, Bool.true_and, decide_eq_true hretry.2, if_true]
            refine (ih (attempt + 1) (excluded ++ [index])).mono fun rest response h => ?_
            obtain ⟨attempts, hrun, hrest⟩ := h
            exact ⟨(index, result) :: attempts, .retried remaining attempt excluded index result
              attempts response hlt hfresh hretry.1 hretry.2 hrun,
              by simp [hpicking, hnotes, hrest]⟩
          · have hfinal : ¬ (exchange.retryable result &&
                decide (attempt + 1 < exchange.maxAttempts)) = true := by
              simpa using hretry
            simp only [if_neg hfinal]
            refine ensures_done ⟨[(index, result)], .answered remaining attempt excluded index
              result hlt hfresh hretry, ?_⟩
            simp [hpicking, hnotes]

/-! ## Laws of the loop -/

namespace LoopRun

variable {exchange : Exchange} {remaining attempt : Nat} {excluded : List Nat}
  {attempts : List (Nat × SendResult)} {response : Response}

theorem length_le (h : LoopRun exchange remaining attempt excluded attempts response) :
    attempts.length ≤ remaining := by
  induction h with
  | exhausted => exact Nat.le_refl 0
  | unserved => exact Nat.zero_le _
  | answered => exact Nat.succ_le_succ (Nat.zero_le _)
  | retried _ _ _ _ _ _ _ _ _ _ _ _ ih => exact Nat.succ_le_succ ih

/-- Attempted upstreams are in range and were not excluded. -/
theorem fresh (h : LoopRun exchange remaining attempt excluded attempts response) :
    ∀ index ∈ attempts.map Prod.fst,
      index < exchange.runtime.balancer.upstreams.length ∧ index ∉ excluded := by
  induction h with
  | exhausted => simp
  | unserved => simp
  | answered _ _ _ index _ hlt hfresh _ => simpa using ⟨hlt, hfresh⟩
  | retried _ _ excluded index _ _ _ hlt hfresh _ _ _ ih =>
      intro other hother
      rcases List.mem_cons.mp hother with rfl | hlater
      · exact ⟨hlt, hfresh⟩
      · obtain ⟨hlt', hfresh'⟩ := ih other hlater
        exact ⟨hlt', fun hmem => hfresh' (List.mem_append_left _ hmem)⟩

/-- No upstream is attempted twice: each attempt excludes its upstream for the rest of
the loop. -/
theorem nodup (h : LoopRun exchange remaining attempt excluded attempts response) :
    (attempts.map Prod.fst).Nodup := by
  induction h with
  | exhausted => exact List.nodup_nil
  | unserved => exact List.nodup_nil
  | answered => exact List.nodup_singleton _
  | retried _ _ excluded index _ attempts _ _ _ _ _ hrest ih =>
      refine List.nodup_cons.mpr ⟨fun hmem => ?_, ih⟩
      exact (hrest.fresh index hmem).2 (List.mem_append_right _ (List.mem_singleton.mpr rfl))

/-- Every attempt but the last failed in a way that may be retried. -/
theorem retryable_of_mem_dropLast
    (h : LoopRun exchange remaining attempt excluded attempts response) :
    ∀ made ∈ attempts.dropLast, exchange.retryable made.2 = true := by
  induction h with
  | exhausted => simp
  | unserved => simp
  | answered => simp
  | retried _ _ _ index result attempts _ _ _ hretry _ hrest ih =>
      intro made hmade
      cases attempts with
      | nil => cases hmade
      | cons next attempts =>
          rcases List.mem_cons.mp hmade with rfl | hlater
          · exact hretry
          · exact ih made hlater

/-- How a loop that starts with all its rounds ends: no upstream could be picked, or
the last attempt answers the request, and then a failure that may be retried was met in
every round.  The code after the loop is not reached. -/
theorem response_cases (h : LoopRun exchange remaining attempt excluded attempts response)
    (hrounds : attempt + remaining = exchange.maxAttempts) (hpos : 0 < remaining) :
    (response = exchange.errorResponse .serviceUnavailable "no healthy upstream" ∧
        attempts.length < remaining ∧ ∀ made ∈ attempts, exchange.retryable made.2 = true) ∨
      ∃ before last, attempts = before ++ [last] ∧ response = exchange.answerFor last.2 ∧
        (exchange.retryable last.2 = true → attempts.length = remaining) := by
  induction h with
  | exhausted => omega
  | unserved => exact Or.inl ⟨rfl, Nat.succ_pos _, by simp⟩
  | answered remaining attempt _ index result _ _ hfinal =>
      refine Or.inr ⟨[], (index, result), rfl, rfl, fun hretry => ?_⟩
      have hlast : ¬ attempt + 1 < exchange.maxAttempts := fun hmore => hfinal ⟨hretry, hmore⟩
      simp only [List.length_singleton]
      omega
  | retried remaining attempt _ index result attempts _ _ _ hretry hmore _ ih =>
      rcases ih (by omega) (by omega) with ⟨hresponse, hfew, hall⟩ |
        ⟨before, last, rfl, hresponse, hrounds⟩
      · refine Or.inl ⟨hresponse, Nat.succ_lt_succ hfew, fun made hmade => ?_⟩
        rcases List.mem_cons.mp hmade with rfl | hlater
        · exact hretry
        · exact hall made hlater
      · refine Or.inr ⟨(index, result) :: before, last, rfl, hresponse, fun hlast => ?_⟩
        exact congrArg (· + 1) (hrounds hlast)

end LoopRun

theorem error_ne_of_body {status status' : StatusCode} {message message' correlation : String}
    (h : Text.asBytes ("\x7b\"error\":\"" ++ message ++ "\"\x7d") ≠
      Text.asBytes ("\x7b\"error\":\"" ++ message' ++ "\"\x7d")) :
    error status message correlation ≠ error status' message' correlation := by
  intro heq
  exact h (Body.buffered.inj (congrArg Response.body heq))

/-- The answer for the result of an attempt is none of the gateway's other error
responses. -/
theorem answerFor_ne_errorResponse (exchange : Exchange) (result : SendResult)
    {status : StatusCode} {message : String} (hstatus : status ≠ .ok)
    (hunavailable : Text.asBytes ("\x7b\"error\":\"" ++ "upstream unavailable" ++ "\"\x7d") ≠
      Text.asBytes ("\x7b\"error\":\"" ++ message ++ "\"\x7d"))
    (hread : Text.asBytes ("\x7b\"error\":\"" ++ "upstream read failed" ++ "\"\x7d") ≠
      Text.asBytes ("\x7b\"error\":\"" ++ message ++ "\"\x7d")) :
    exchange.answerFor result ≠ exchange.errorResponse status message := by
  cases result with
  | error e => exact error_ne_of_body hunavailable
  | ok resp =>
      change exchange.relayed resp ≠ _
      unfold relayed
      split
      · rename_i hstores
        split
        · exact error_ne_of_body hread
        · -- Only a response of status 200 is buffered.
          have hok : resp.status = .ok := by
            simp only [stores, Bool.and_eq_true, beq_iff_eq] at hstores
            exact hstores.1.1.2
          intro heq
          have hstatus' : resp.status = status := congrArg Response.status heq
          exact hstatus (hstatus'.symm.trans hok)
      · intro heq
        cases congrArg Response.body heq

theorem flatMap_ite_singleton {α β : Type} (p : α → Bool) (f : α → β) (l : List α) :
    (l.flatMap fun a => if p a then [f a] else []) = (l.filter p).map f := by
  induction l with
  | nil => rfl
  | cons a l ih =>
      rw [List.flatMap_cons, ih, List.filter_cons]
      split <;> rfl

/-- The upstream of an attempt. -/
def attempted (exchange : Exchange) (made : Nat × SendResult) : UpstreamId :=
  ⟨exchange.runtime.id, made.1⟩

section Accounts

variable {exchange : Exchange} {trace : List (Event effects)} {attempts : List (Nat × SendResult)}
  (h : notes trace = attempts.flatMap exchange.attemptNotes)

include h

theorem sends_of_notes :
    sends trace = attempts.map fun made => (exchange.attempted made, made.2) := by
  rw [sends, h, List.filterMap_flatMap, List.map_eq_flatMap]
  refine List.flatMap_congr fun made _ => ?_
  unfold attemptNotes
  split <;> rfl

theorem successes_of_notes :
    successes trace = (attempts.filter (SendResult.isSuccess ·.2)).map exchange.attempted := by
  rw [successes, h, List.filterMap_flatMap, ← flatMap_ite_singleton]
  refine List.flatMap_congr fun made _ => ?_
  unfold attemptNotes
  split <;> rfl

/-- A success is reported for a response outside the server errors. -/
theorem mem_successes_iff {upstream : UpstreamId} :
    upstream ∈ successes trace ↔
      ∃ resp, (upstream, .ok resp) ∈ sends trace ∧ resp.status.isServerError = false := by
  rw [successes_of_notes h, sends_of_notes h]
  constructor
  · intro hmem
    obtain ⟨made, hfilter, rfl⟩ := List.mem_map.mp hmem
    obtain ⟨horiginal, hsuccess⟩ := List.mem_filter.mp hfilter
    obtain ⟨resp, hresp, hok⟩ := SendResult.isSuccess_iff.mp hsuccess
    exact ⟨resp, List.mem_map.mpr ⟨made, horiginal, by rw [hresp]⟩, hok⟩
  · rintro ⟨resp, hmem, hok⟩
    obtain ⟨made, horiginal, heq⟩ := List.mem_map.mp hmem
    obtain ⟨rfl, hresult⟩ := Prod.mk.inj heq
    refine List.mem_map.mpr ⟨made, List.mem_filter.mpr ⟨horiginal, ?_⟩, rfl⟩
    exact SendResult.isSuccess_iff.mpr ⟨resp, hresult, hok⟩

theorem failures_of_notes :
    failures trace = (attempts.filter (!SendResult.isSuccess ·.2)).map exchange.attempted := by
  rw [failures, h, List.filterMap_flatMap, ← flatMap_ite_singleton]
  refine List.flatMap_congr fun made _ => ?_
  unfold attemptNotes
  cases SendResult.isSuccess made.2 with
  | true => rfl
  | false => rfl

/-- The error counter of the route is incremented once with every reported failure. -/
theorem errorIncrements_of_notes :
    errorIncrements trace = List.replicate (failures trace).length exchange.routeName := by
  have hroutes : errorIncrements trace =
      (attempts.filter (!SendResult.isSuccess ·.2)).map fun _ => exchange.routeName := by
    rw [errorIncrements, h, List.filterMap_flatMap, ← flatMap_ite_singleton]
    refine List.flatMap_congr fun made _ => ?_
    unfold attemptNotes
    cases SendResult.isSuccess made.2 with
    | true => rfl
    | false => rfl
  rw [hroutes, failures_of_notes h, List.length_map, List.map_const']

end Accounts

theorem nodup_attempted (exchange : Exchange) {attempts : List (Nat × SendResult)}
    (h : (attempts.map Prod.fst).Nodup) : (attempts.map exchange.attempted).Nodup := by
  have hmap : attempts.map exchange.attempted =
      (attempts.map Prod.fst).map (UpstreamId.mk exchange.runtime.id) := by
    rw [List.map_map]
    rfl
  rw [hmap]
  exact h.map fun _ _ heq => (UpstreamId.mk.inj heq).2

theorem maxAttempts_pos (exchange : Exchange) : 0 < exchange.maxAttempts := by
  unfold maxAttempts
  omega

/-- The runtime of a route of an accepted configuration has an upstream. -/
theorem upstreams_ne_nil_of_valid {config : GatewayConfig} (hvalid : config.validate = .ok ())
    {id : RouteId} {route : RouteConfig} (hroute : config.routes[id]? = some route)
    {exchange : Exchange} (hruntime : exchange.runtime = .fromConfig id route) :
    exchange.runtime.balancer.upstreams ≠ [] := by
  have hupstreams := (((validate_eq_ok_iff config).mp hvalid).routes route
    (List.mem_of_getElem? hroute)).hasUpstream
  exact upstreams_ne_nil_of_runtime hruntime hupstreams

/-- **Accounts of the attempt loop.**  For every runtime of an accepted configuration,
from every state and with every behaviour of the upstreams, the loop attempts
pairwise distinct upstreams of its route, at most as many as the retries allow and as
there are.  When it returns, it has reported exactly one outcome to the breaker of
each attempted upstream and none to any other, a success exactly for a response
outside the server errors, and has incremented the error counter of the route once
with every failure.  The code after the loop is not reached. -/
theorem attempt_accounting (config : GatewayConfig) (hvalid : config.validate = .ok ())
    (id : RouteId) (route : RouteConfig) (hroute : config.routes[id]? = some route)
    (exchange : Exchange) (hruntime : exchange.runtime = .fromConfig id route)
    (bodyBytes : Bytes) (inputs : Nat → Input) (world : World) :
    let run := (exchange.attemptLoop bodyBytes exchange.maxAttempts 0 []).exec interpreter
      inputs world
    ((sends run.trace).map Prod.fst).Nodup ∧
      (∀ made ∈ sends run.trace,
        made.1.route = id ∧ made.1.index < route.upstreams.length) ∧
      (sends run.trace).length ≤
        min (min (route.retries.toNat + 1) (2 ^ 32 - 1)) route.upstreams.length ∧
      (∀ upstream, (successes run.trace).count upstream + (failures run.trace).count upstream =
        if upstream ∈ (sends run.trace).map Prod.fst then 1 else 0) ∧
      (∀ upstream, upstream ∈ successes run.trace ↔
        ∃ resp, (upstream, .ok resp) ∈ sends run.trace ∧ resp.status.isServerError = false) ∧
      errorIncrements run.trace = List.replicate (failures run.trace).length exchange.routeName ∧
      run.value ≠ exchange.errorResponse .badGateway "all upstream attempts failed" := by
  intro run
  have hlength := length_upstreams_of_runtime hruntime
  have hnonempty := upstreams_ne_nil_of_valid hvalid hroute hruntime
  have hmax : exchange.maxAttempts = min (route.retries.toNat + 1) (2 ^ 32 - 1) := by
    simp only [maxAttempts, hruntime, RouteRuntime.fromConfig]
    omega
  obtain ⟨attempts, hrun, hnotes⟩ := (exchange.attemptLoop_ensures hnonempty bodyBytes
    exchange.maxAttempts 0 []).exec interpreter inputs world
  have hsends := sends_of_notes hnotes
  have hmade : (sends run.trace).map Prod.fst = attempts.map exchange.attempted := by
    rw [hsends, List.map_map]
    rfl
  have hnodup := exchange.nodup_attempted hrun.nodup
  refine ⟨hmade ▸ hnodup, ?_, ?_, ?_, fun _ => mem_successes_iff hnotes,
    errorIncrements_of_notes hnotes, ?_⟩
  · intro made hmem
    rw [hsends] at hmem
    obtain ⟨original, horiginal, rfl⟩ := List.mem_map.mp hmem
    have hlt := (hrun.fresh original.1 (List.mem_map_of_mem horiginal)).1
    exact ⟨by simp [attempted, hruntime, RouteRuntime.fromConfig], hlength ▸ hlt⟩
  · rw [hsends, List.length_map, ← hmax]
    refine Nat.le_min.mpr ⟨hrun.length_le, ?_⟩
    have hrange := hrun.nodup.length_le_of_subset fun index hindex =>
      List.mem_range.mpr (hrun.fresh index hindex).1
    simpa [hlength] using hrange
  · intro upstream
    rw [successes_of_notes hnotes, failures_of_notes hnotes, hmade, ← hnodup.count,
      ← List.count_append, ← List.map_append]
    exact ((List.filter_append_perm _ attempts).map exchange.attempted).count_eq upstream
  · rcases hrun.response_cases (Nat.zero_add _) exchange.maxAttempts_pos with
      ⟨hresponse, -⟩ | ⟨before, last, -, hresponse, -⟩
    · rw [hresponse]
      exact error_ne_of_body (by decide)
    · rw [hresponse]
      exact exchange.answerFor_ne_errorResponse last.2 (by decide) (by decide) (by decide)

end Exchange

/-- A route with two upstreams and one retry. -/
def pairRoute : RouteConfig :=
  { name := "pair", upstreams := [{ url := "http://a" }, { url := "http://b" }], retries := 1 }

def pairConfig : GatewayConfig := { routes := [pairRoute] }

def pairIncoming (method : Method) : Incoming where
  request :=
    { method := method
      uri := .ofPath "/" (by decide)
      headers := []
      body := ⟨[], true⟩ }
  peer := "10.0.0.1"

/-- A request to the route, at the start of its attempts. -/
def pairExchange (method : Method) : Exchange :=
  .new (.build pairConfig false) (pairIncoming method) "pair" (.fromConfig 0 pairRoute) "id" 0

/-- Upstreams that always answer 500. -/
def failingInput : Input :=
  { upstream := fun _ _ => .ok ⟨.internalServerError, [], ⟨[], true⟩⟩ }

/-- When every upstream answers 500, both are tried, once each, and both failures are
counted. -/
theorem attempt_accounting_pair :
    let run := ((pairExchange .get).attemptLoop [] (pairExchange .get).maxAttempts 0 []).exec
      interpreter (fun _ => failingInput) .initial
    (sends run.trace).length = 2 ∧ ((sends run.trace).map Prod.fst).Nodup ∧
      errorIncrements run.trace = List.replicate (failures run.trace).length "pair" := by
  intro run
  obtain ⟨hnodup, -, -, -, -, herrors, -⟩ := Exchange.attempt_accounting pairConfig rfl 0
    pairRoute rfl (pairExchange .get) rfl [] (fun _ => failingInput) .initial
  exact ⟨rfl, hnodup, herrors⟩

end Gateway
end ApiGateway
