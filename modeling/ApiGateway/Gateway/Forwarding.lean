import ApiGateway.Gateway.RouteIsolation
import ApiGateway.Gateway.Answers
import ApiGateway.Gateway.UpstreamTarget
import ApiGateway.Library.Tally

/-!
# What goes out for a request

`Forwards` says what must be true when a handler hands a request to the HTTP client: the
request on the wire is the client's own, made out for the upstream that was picked, with the
whole body; and the attempts before it were on other upstreams of the same route, failed
in a way that may be retried, and leave room for one more.

It holds before every send of every handler, so also of handlers that never return.  From it
come the two results over runs: all attempts of a request carry the same request, and the
calls made to the upstreams of a route are at most so many times the requests that came in.
-/

namespace ApiGateway
namespace Gateway

open Library Core Program

section Handler

variable (config : GatewayConfig) (redisReachable : Bool) (incoming : Incoming)

/-- The exchange of a request on a route. -/
def exchangeOn (route : RouteConfig) (id : RouteId) (correlation : String) (started : Instant) :
    Exchange :=
  .new (.build config redisReachable) incoming route.name (.fromConfig id route) correlation started

/-- The attempts that a handler may have behind it when it makes the next one. -/
structure RoomFor (route : RouteConfig) (exchange : Exchange)
    (made : List (UpstreamId × SendResult)) (upstream : UpstreamId) : Prop where
  few : made.length < exchange.maxAttempts
  fresh : upstream ∉ made.map Prod.fst
  same : ∀ attempt ∈ made, attempt.1.route = upstream.route ∧
    attempt.1.index < route.upstreams.length
  retryable : ∀ attempt ∈ made, exchange.retryable attempt.2 = true

/-- What is true when a request is sent after the given calls. -/
structure Forwards (history : List (Event effects)) (upstream : UpstreamId)
    (request : OutgoingRequest) (route : RouteConfig) (correlation : String) (started : Instant) :
    Prop where
  matched : incoming.routeOf config = some route
  configured : config.routes[upstream.route]? = some route
  correlated : correlationOf incoming.request history = some correlation
  inRange : upstream.index < route.upstreams.length
  whole : toBytes incoming.request.body config.server.maxBodyBytes =
    some incoming.request.body.bytes
  request_eq : request =
    (exchangeOn config redisReachable incoming route upstream.route correlation started).outgoing
      ((Balancer.fromRoute route).upstreamAt upstream.index) incoming.request.body.bytes
  room : RoomFor route
    (exchangeOn config redisReachable incoming route upstream.route correlation started)
    (sends history) upstream

/-- Every send is one that forwards the request. -/
def ForwardsOnly (history : List (Event effects)) : Op → Prop
  | .send upstream request =>
      ∃ route correlation started,
        Forwards config redisReachable incoming history upstream request route correlation started
  | _ => True

end Handler

variable {config : GatewayConfig} {redisReachable : Bool} {incoming : Incoming}

theorem forwardsOnly_of_kind {history : List (Event effects)} {op : Op} (h : op.kind ≠ .send) :
    ForwardsOnly config redisReachable incoming history op := by
  cases op with
  | send _ _ => exact absurd rfl h
  | _ => trivial

theorem forwardsOnly_of_makesKinds {α : Type} {kinds : List OpKind} {program : GatewayProgram α}
    {history : List (Event effects)} (h : MakesKinds kinds program) (hkinds : .send ∉ kinds) :
    program.Guarded (ForwardsOnly config redisReachable incoming) history :=
  Makes.guarded h fun _ _ hop => forwardsOnly_of_kind fun hsend => hkinds (hsend ▸ hop)

/-- A stage that sends nothing leaves the attempts as they are. -/
theorem sends_of_makesKinds {α : Type} {kinds : List OpKind} {program : GatewayProgram α}
    (h : MakesKinds kinds program) (hkinds : ∀ kind ∈ kinds, kind ∉ accountable)
    {trace : List (Event effects)} {value : α} (hreturns : Returns program trace value) :
    sends trace = [] :=
  sends_eq_nil_of_notes (notes_of_makesKinds h hkinds trace value hreturns)

namespace Exchange

section Attempts

variable {route : RouteConfig} {id : RouteId} {correlation : String} {started : Instant}

/-- The facts about a request that do not change while it is tried. -/
structure Routed (config : GatewayConfig) (incoming : Incoming) (route : RouteConfig)
    (id : RouteId) (correlation : String) (history : List (Event effects)) : Prop where
  matched : incoming.routeOf config = some route
  configured : config.routes[id]? = some route
  correlated : correlationOf incoming.request history = some correlation
  whole : toBytes incoming.request.body config.server.maxBodyBytes =
    some incoming.request.body.bytes

theorem Routed.later {history : List (Event effects)}
    (h : Routed config incoming route id correlation history) (more : List (Event effects)) :
    Routed config incoming route id correlation (history ++ more) :=
  { h with correlated := correlationOf_append h.correlated more }

/-- The attempts so far are those on the excluded upstreams. -/
structure Tried (exchange : Exchange) (route : RouteConfig) (id : RouteId)
    (history : List (Event effects)) (attempt : Nat) (excluded : List Nat) : Prop where
  count : (sends history).length = attempt
  indices : (sends history).map Prod.fst = excluded.map fun index => ⟨id, index⟩
  inRange : ∀ index ∈ excluded, index < route.upstreams.length
  retryable : ∀ made ∈ sends history, exchange.retryable made.2 = true

theorem Tried.later {exchange : Exchange} {history more : List (Event effects)} {attempt : Nat}
    {excluded : List Nat} (h : Tried exchange route id history attempt excluded)
    (hmore : sends more = []) : Tried exchange route id (history ++ more) attempt excluded := by
  have hsends : sends (history ++ more) = sends history := by
    rw [sends_append, hmore, List.append_nil]
  exact ⟨hsends ▸ h.count, hsends ▸ h.indices, h.inRange, hsends ▸ h.retryable⟩

/-- There is room for an attempt on an upstream that is not excluded. -/
theorem Tried.room {exchange : Exchange} {history : List (Event effects)} {attempt index : Nat}
    {excluded : List Nat} (h : Tried exchange route id history attempt excluded)
    (hattempt : attempt < exchange.maxAttempts) (hfresh : index ∉ excluded) :
    RoomFor route exchange (sends history) ⟨id, index⟩ := by
  refine ⟨h.count ▸ hattempt, ?_, fun made hmade => ?_, h.retryable⟩
  · rw [h.indices]
    intro hmem
    obtain ⟨other, hother, heq⟩ := List.mem_map.mp hmem
    obtain rfl : other = index := congrArg UpstreamId.index heq
    exact hfresh hother
  · have hmem : made.1 ∈ (sends history).map Prod.fst := List.mem_map_of_mem hmade
    rw [h.indices] at hmem
    obtain ⟨other, hother, heq⟩ := List.mem_map.mp hmem
    rw [← heq]
    exact ⟨rfl, h.inRange other hother⟩

/-- A failed attempt on a fresh upstream joins the attempts so far. -/
theorem Tried.snoc {exchange : Exchange} {history more : List (Event effects)} {attempt : Nat}
    {excluded : List Nat} (h : Tried exchange route id history attempt excluded) {index : Nat}
    {result : SendResult} (hmore : sends more = [(⟨id, index⟩, result)])
    (hindex : index < route.upstreams.length) (hretry : exchange.retryable result = true) :
    Tried exchange route id (history ++ more) (attempt + 1) (excluded ++ [index]) := by
  have hsends : sends (history ++ more) = sends history ++ [(⟨id, index⟩, result)] := by
    rw [sends_append, hmore]
  refine ⟨?_, ?_, fun other hother => ?_, fun made hmade => ?_⟩
  · rw [hsends, List.length_append, h.count]
    rfl
  · rw [hsends, List.map_append, List.map_append, h.indices]
    rfl
  · rcases List.mem_append.mp hother with hold | hnew
    · exact h.inRange other hold
    · rwa [List.mem_singleton.mp hnew]
  · rw [hsends] at hmade
    rcases List.mem_append.mp hmade with hold | hnew
    · exact h.retryable made hold
    · rwa [List.mem_singleton.mp hnew]

theorem tryUpstream_forwards {history : List (Event effects)} {attempt index : Nat}
    {excluded : List Nat}
    (hrouted : Routed config incoming route id correlation history)
    (htried : Tried (exchangeOn config redisReachable incoming route id correlation started) route
      id history attempt excluded)
    (hattempt : attempt <
      (exchangeOn config redisReachable incoming route id correlation started).maxAttempts)
    (hfresh : index ∉ excluded) (hindex : index < route.upstreams.length) :
    ((exchangeOn config redisReachable incoming route id correlation started).tryUpstream
      incoming.request.body.bytes attempt index
      ((Balancer.fromRoute route).upstreamAt index)).Guarded
        (ForwardsOnly config redisReachable incoming) history := by
  refine guarded_perform trivial fun start => guarded_perform ?_ fun result => ?_
  · have hstart : sends [(⟨.instantNow, start⟩ : Event effects)] = [] := rfl
    have hlater := hrouted.later [⟨.instantNow, start⟩]
    exact ⟨route, correlation, started,
      { matched := hrouted.matched
        configured := hrouted.configured
        correlated := hlater.correlated
        inRange := hindex
        whole := hrouted.whole
        request_eq := rfl
        room := (htried.later hstart).room hattempt hfresh }⟩
  · refine guarded_perform trivial fun _ => guarded_perform trivial fun _ =>
      guarded_perform trivial fun _ => ?_
    refine guarded_bind ?_ fun _ _ _ => guarded_perform trivial fun _ => trivial
    exact forwardsOnly_of_makesKinds (settle_makesKinds _ _ _ _ _) (by decide)

theorem attemptLoop_forwards (hupstreams : route.upstreams ≠ []) {history : List (Event effects)}
    (remaining attempt : Nat) (excluded : List Nat)
    (hrouted : Routed config incoming route id correlation history)
    (htried : Tried (exchangeOn config redisReachable incoming route id correlation started) route
      id history attempt excluded)
    (hrounds : attempt + remaining =
      (exchangeOn config redisReachable incoming route id correlation started).maxAttempts) :
    ((exchangeOn config redisReachable incoming route id correlation started).attemptLoop
      incoming.request.body.bytes remaining attempt excluded).Guarded
        (ForwardsOnly config redisReachable incoming) history := by
  have hbalancer : (Balancer.fromRoute route).upstreams ≠ [] := by
    rw [← List.length_pos_iff, Balancer.fromRoute, List.length_map, List.length_pos_iff]
    exact hupstreams
  have hrecord : ∀ status history, ((exchangeOn config redisReachable incoming route id correlation
      started).record status).Guarded (ForwardsOnly config redisReachable incoming) history :=
    fun status _ => forwardsOnly_of_makesKinds (record_makesKinds _ status) (by decide)
  -- The number of the attempt and the excluded upstreams are those of the sends so far.
  induction remaining generalizing history attempt excluded with
  | zero => exact guarded_bind (hrecord _ _) fun _ _ _ => trivial
  | succ remaining ih =>
      have hpick := Balancer.pick_makesKinds (Balancer.fromRoute route) id excluded
      refine guarded_bind (forwardsOnly_of_makesKinds hpick (by decide))
        fun picking picked hpicked => ?_
      cases picked with
      | none => exact guarded_bind (hrecord _ _) fun _ _ _ => trivial
      | some picked =>
          obtain ⟨index, upstream⟩ := picked
          obtain ⟨hlt, hfresh, rfl⟩ := Balancer.pick_ensures (Balancer.fromRoute route) hbalancer
            id excluded picking _ hpicked index upstream rfl
          have hindex : index < route.upstreams.length := by
            rwa [← List.length_map (Upstream.fromConfig route.circuitBreaker)]
          have htried' := htried.later (sends_of_makesKinds hpick (by decide) hpicked)
          refine guarded_bind (tryUpstream_forwards (hrouted.later picking) htried' (by omega)
            hfresh hindex) fun tried settled hsettled => ?_
          cases settled with
          | some response => trivial
          | none =>
              obtain ⟨result, hsent, ⟨-, hretry, -⟩ | ⟨hsome, -⟩⟩ := tryUpstream_answers _ _ attempt
                index _ tried none hsettled
              · exact ih (attempt + 1) (excluded ++ [index])
                  ((hrouted.later picking).later tried) (htried'.snoc hsent hindex hretry) (by omega)
              · cases hsome

theorem proxy_forwards (hupstreams : route.upstreams ≠ []) {history : List (Event effects)}
    (hmatched : incoming.routeOf config = some route)
    (hconfigured : config.routes[id]? = some route)
    (hcorrelated : correlationOf incoming.request history = some correlation)
    (hsends : sends history = []) :
    (exchangeOn config redisReachable incoming route id correlation started).proxy.Guarded
      (ForwardsOnly config redisReachable incoming) history := by
  refine guarded_perform trivial fun _ => ?_
  split
  · exact guarded_bind (forwardsOnly_of_makesKinds (record_makesKinds _ _) (by decide))
      fun _ _ _ => trivial
  · rename_i bodyBytes hbytes
    -- What fits is the whole body as it was sent.
    have hwhole : bodyBytes = incoming.request.body.bytes := by
      have hfits := hbytes
      simp only [toBytes, Option.ite_none_right_eq_some] at hfits
      exact (Option.some.inj hfits.2).symm
    subst hwhole
    have hread : sends (history ++ [(⟨.readRequestBody, ()⟩ : Event effects)]) = [] := by
      rw [sends_append, hsends]
      rfl
    refine attemptLoop_forwards hupstreams _ 0 [] ?_ ?_ (Nat.zero_add _)
    · exact ⟨hmatched, hconfigured, correlationOf_append hcorrelated _, hbytes⟩
    · refine ⟨by rw [hread]; rfl, by rw [hread]; rfl, nofun, ?_⟩
      rw [hread]
      nofun

theorem serve_forwards (decode : TokenDecoder) (hupstreams : route.upstreams ≠ [])
    {history : List (Event effects)} (hmatched : incoming.routeOf config = some route)
    (hconfigured : config.routes[id]? = some route)
    (hcorrelated : correlationOf incoming.request history = some correlation)
    (hsends : sends history = []) :
    ((exchangeOn config redisReachable incoming route id correlation started).serve
      decode).Guarded (ForwardsOnly config redisReachable incoming) history := by
  apply serve_guarded_of_stages
  · exact forwardsOnly_of_makesKinds (authenticate_makesKinds decode _) (by decide)
  · intro auth _
    exact forwardsOnly_of_makesKinds (limitRate_makesKinds _) (by decide)
  · intro auth limited _ _
    exact forwardsOnly_of_makesKinds (lookupCache_makesKinds _) (by decide)
  · intro auth limited looked hauth hlimited hlooked
    refine proxy_forwards hupstreams hmatched hconfigured ?_ ?_
    · exact correlationOf_append (correlationOf_append (correlationOf_append hcorrelated _) _) _
    · rw [sends_append, sends_append, sends_append, hsends,
        sends_of_makesKinds (authenticate_makesKinds decode _) (by decide) hauth,
        sends_of_makesKinds (limitRate_makesKinds _) (by decide) hlimited,
        sends_of_makesKinds (lookupCache_makesKinds _) (by decide) hlooked]
      rfl

end Attempts

end Exchange

/-- Every send of a handler forwards its request. -/
theorem handle_forwards (decode : TokenDecoder) (hvalid : config.Valid) :
    (handle decode (.build config redisReachable) incoming).Guarded
      (ForwardsOnly config redisReachable incoming) [] := by
  apply handle_guarded_of_serve
  · intro history op hop
    refine forwardsOnly_of_kind fun hsend => ?_
    rw [hsend] at hop
    exact absurd hop (by decide)
  · intro route runtime correlation started history hmatched hruntime hopening hcorrelated
    obtain ⟨id, hconfigured, hroute⟩ := route_of_matchRoute redisReachable hvalid hmatched
    obtain rfl := Option.some.inj (hroute.symm.trans hruntime)
    have hsends : sends history = [] := by
      refine sends_eq_nil_of_notes (List.filterMap_eq_nil_iff.mpr fun event hevent => ?_)
      have hnone : ∀ kind ∈ frameKinds, kind ∉ accountable := by decide
      exact note_eq_none (hnone _ (hopening event hevent))
    exact Exchange.serve_forwards decode
      (hvalid.routes route (List.mem_of_getElem? hconfigured)).hasUpstream hmatched hconfigured
      hcorrelated hsends

/-! ## In every run -/

section Runs

variable {decode : TokenDecoder} {actions : List GatewayAction} {index : Nat}
  {thread : Thread effects Incoming Response}

/-- The sends of a thread, at any time of its life. -/
theorem forwards_after (hvalid : config.Valid)
    (hthread : (gatewayAfter decode config redisReachable actions).threads[index]? = some thread)
    {before after : List (Event effects)} {event : Event effects}
    (hhistory : thread.history = before ++ event :: after) :
    ForwardsOnly config redisReachable thread.request before event.1 := by
  have hsteps := (gatewayAfter_coherent decode config redisReachable actions).steps index thread
    hthread
  have hallowed := (handle_forwards decode hvalid).allowed_of_mem hsteps hhistory
  exact hallowed

end Runs

/-- **What upstreams receive is what the client sent.**  In every run, whatever a handler hands
to the client for an upstream has the method of its request, the address of the upstream
followed by the forwarded path and query, the complete body, which fits the limit, and
the timeout of the route; and any other attempt for the same request differs in the address of
the upstream only. -/
theorem attempts_carry_the_request (decode : TokenDecoder) (config : GatewayConfig)
    (hvalid : config.validate = .ok ()) (redisReachable : Bool) (actions : List GatewayAction)
    {index : Nat} {thread : Thread effects Incoming Response}
    (hthread : (gatewayAfter decode config redisReachable actions).threads[index]? = some thread)
    {upstream : UpstreamId} {request : OutgoingRequest} {result : SendResult}
    (hsent : (⟨.send upstream request, result⟩ : Event effects) ∈ thread.history) :
    ∃ route, thread.request.routeOf config = some route ∧
      config.routes[upstream.route]? = some route ∧ upstream.index < route.upstreams.length ∧
      request.method = thread.request.request.method ∧
      request.url = ((Balancer.fromRoute route).upstreamAt upstream.index).url ++
        forwardTarget thread.request.request.uri route ∧
      request.body = thread.request.request.body.bytes ∧
      thread.request.request.body.complete = true ∧
      request.body.length ≤ config.server.maxBodyBytes ∧
      request.timeout = Duration.fromMillis
        (route.timeoutMs.getD config.server.defaultTimeoutMs).toNat ∧
      ∀ other request' result',
        (⟨.send other request', result'⟩ : Event effects) ∈ thread.history →
          other.route = upstream.route ∧
            request' = { request with
              url := ((Balancer.fromRoute route).upstreamAt other.index).url ++
                forwardTarget thread.request.request.uri route } := by
  have hconfig := (validate_eq_ok_iff config).mp hvalid
  -- Every attempt has its facts; the route and the correlation id are those of the thread.
  have hforwards : ∀ {upstream request result},
      (⟨.send upstream request, result⟩ : Event effects) ∈ thread.history →
      ∃ before route correlation started, Forwards config redisReachable thread.request before
          upstream request route correlation started ∧
        correlationOf thread.request.request thread.history = some correlation := by
    intro upstream request result hmem
    obtain ⟨before, after, hhistory⟩ := List.append_of_mem hmem
    obtain ⟨route, correlation, started, h⟩ := forwards_after hconfig hthread hhistory
    refine ⟨before, route, correlation, started, h, ?_⟩
    rw [hhistory]
    exact correlationOf_append h.correlated _
  obtain ⟨before, route, correlation, started, h, hcorrelated⟩ := hforwards hsent
  have hbytes := h.whole
  simp only [toBytes, Option.ite_none_right_eq_some] at hbytes
  have hrequest := h.request_eq
  refine ⟨route, h.matched, h.configured, h.inRange, ?_, ?_, ?_, hbytes.1.1, ?_, ?_, ?_⟩
  · rw [hrequest]
    rfl
  · rw [hrequest]
    rfl
  · rw [hrequest]
    rfl
  · rw [hrequest]
    exact hbytes.1.2
  · rw [hrequest]
    rfl
  · intro other request' result' hother
    obtain ⟨before', route', correlation', started', h', hcorrelated'⟩ := hforwards hother
    obtain rfl : route' = route := Option.some.inj (h'.matched.symm.trans h.matched)
    obtain rfl : correlation' = correlation :=
      Option.some.inj (hcorrelated'.symm.trans hcorrelated)
    have hsame : other.route = upstream.route := by
      have hid := routeId_of_matched hconfig h.matched h.configured
      have hid' := routeId_of_matched hconfig h'.matched h'.configured
      exact Option.some.inj (hid'.symm.trans hid)
    refine ⟨hsame, ?_⟩
    rw [h'.request_eq, hrequest]
    rfl

/-- A request whose first upstream answers 500, and that is then sent to the second. -/
def retriedRun : List GatewayAction :=
  .arrive (pairIncoming .get) :: List.replicate 27 (.advance 0 failingInput)

theorem retriedRun_sends :
    ∃ thread, (gatewayAfter (fun _ _ _ => none) pairConfig false retriedRun).threads[0]? =
        some thread ∧
      ∃ first result second result',
        thread.history[11]? = some ⟨.send ⟨0, 0⟩ first, result⟩ ∧
          thread.history[25]? = some ⟨.send ⟨0, 1⟩ second, result'⟩ :=
  ⟨_, rfl, _, _, _, _, rfl, rfl⟩

theorem attempts_carry_the_request_retried :
    ∃ thread first result second result',
      (gatewayAfter (fun _ _ _ => none) pairConfig false retriedRun).threads[0]? = some thread ∧
      (⟨.send ⟨0, 0⟩ first, result⟩ : Event effects) ∈ thread.history ∧
      (⟨.send ⟨0, 1⟩ second, result'⟩ : Event effects) ∈ thread.history ∧
      ∃ url, second = { first with url := url } := by
  obtain ⟨thread, hthread, first, result, second, result', hfirst, hsecond⟩ := retriedRun_sends
  have hmem := List.mem_of_getElem? hfirst
  have hmem' := List.mem_of_getElem? hsecond
  obtain ⟨_, -, -, -, -, -, -, -, -, -, hsame⟩ := attempts_carry_the_request (fun _ _ _ => none)
    pairConfig rfl false retriedRun hthread hmem
  exact ⟨thread, first, result, second, result', hthread, hmem, hmem', _,
    (hsame _ _ _ hmem').2⟩

/-! ## How many attempts -/

/-- The number of attempts that a route allows for one request. -/
def attemptLimit (route : RouteConfig) : Nat :=
  min (max (min (route.retries.toNat + 1) (2 ^ 32 - 1)) 1) route.upstreams.length

/-- The attempts of a request so far: on different upstreams of its route, and no more than
the route allows. -/
structure WithinLimit (config : GatewayConfig) (incoming : Incoming) (history : List (Event effects))
    (route : RouteConfig) (id : RouteId) : Prop where
  matched : incoming.routeOf config = some route
  configured : config.routes[id]? = some route
  nodup : ((sends history).map Prod.fst).Nodup
  count : (sends history).length ≤ max (min (route.retries.toNat + 1) (2 ^ 32 - 1)) 1
  own : ∀ made ∈ sends history, made.1.route = id ∧ made.1.index < route.upstreams.length

/-- Distinct upstreams of one route are at most as many as the route has. -/
theorem WithinLimit.length_le {history : List (Event effects)} {route : RouteConfig}
    {id : RouteId} (h : WithinLimit config incoming history route id) :
    (sends history).length ≤ attemptLimit route := by
  refine Nat.le_min.mpr ⟨h.count, ?_⟩
  have hindices : ((sends history).map fun made => made.1.index).Nodup := by
    have hmap : (sends history).map (fun made => made.1.index) =
        ((sends history).map Prod.fst).map UpstreamId.index := by
      rw [List.map_map]
      rfl
    rw [hmap]
    refine h.nodup.map_on ?_
    intro first hfirst second hsecond heq
    obtain ⟨made, hmade, rfl⟩ := List.mem_map.mp hfirst
    obtain ⟨made', hmade', rfl⟩ := List.mem_map.mp hsecond
    have hroute := (h.own made hmade).1.trans (h.own made' hmade').1.symm
    obtain ⟨⟨route, index⟩, result⟩ := made
    obtain ⟨⟨route', index'⟩, result'⟩ := made'
    obtain rfl : route = route' := hroute
    obtain rfl : index = index' := heq
    rfl
  have hsubset : (sends history).map (fun made => made.1.index) ⊆
      List.range route.upstreams.length := by
    intro position hposition
    obtain ⟨made, hmade, rfl⟩ := List.mem_map.mp hposition
    exact List.mem_range.mpr (h.own made hmade).2
  have hlength := (List.subperm_of_subset hindices hsubset).length_le
  simpa using hlength

/-- A history all of whose sends forward the request has sent nothing, or is within the
limit of its route. -/
theorem withinLimit_of_forwards {history : List (Event effects)}
    (h : ∀ before event after, history = before ++ event :: after →
      ForwardsOnly config redisReachable incoming before event.1) :
    sends history = [] ∨ ∃ route id, WithinLimit config incoming history route id := by
  -- Induction over the calls: a send is checked against those before it.
  induction history using List.reverseRecOn with
  | nil => exact Or.inl rfl
  | append_singleton history event ih =>
      have hbefore := ih fun before other after hsplit =>
        h before other (after ++ [event]) (by rw [hsplit]; simp)
      have hlast := h history event [] rfl
      obtain ⟨op, answer⟩ := event
      by_cases hsend : ∃ upstream request, op = .send upstream request
      · obtain ⟨upstream, request, rfl⟩ := hsend
        obtain ⟨route, correlation, started, hforwards⟩ := hlast
        have hsends : sends (history ++ [⟨.send upstream request, answer⟩]) =
            sends history ++ [(upstream, answer)] := by
          rw [sends_append]
          rfl
        have hnodup : ((sends history).map Prod.fst).Nodup := by
          rcases hbefore with hnil | ⟨_, _, hlimit⟩
          · rw [hnil]
            exact List.nodup_nil
          · exact hlimit.nodup
        refine Or.inr ⟨route, upstream.route, hforwards.matched, hforwards.configured, ?_, ?_, ?_⟩
        · rw [hsends, List.map_append, List.nodup_append]
          refine ⟨hnodup, List.nodup_singleton _, ?_⟩
          rintro made hmade _ hnew rfl
          rw [List.mem_singleton.mp hnew] at hmade
          exact hforwards.room.fresh hmade
        · rw [hsends, List.length_append]
          exact hforwards.room.few
        · intro made hmade
          rw [hsends] at hmade
          rcases List.mem_append.mp hmade with hold | hnew
          · exact hforwards.room.same made hold
          · rw [List.mem_singleton.mp hnew]
            exact ⟨rfl, hforwards.inRange⟩
      · have hsends : sends (history ++ [⟨op, answer⟩]) = sends history := by
          rw [sends_append]
          refine (congrArg _ (List.eq_nil_iff_forall_not_mem.mpr fun made hmade => ?_)).trans
            (List.append_nil _)
          obtain ⟨request, hmem⟩ := mem_sends hmade
          exact hsend ⟨made.1, request, (congrArg Sigma.fst (List.mem_singleton.mp hmem)).symm⟩
        rcases hbefore with hnil | ⟨route, id, hlimit⟩
        · exact Or.inl (hsends.trans hnil)
        · exact Or.inr ⟨route, id, hlimit.matched, hlimit.configured, hsends ▸ hlimit.nodup,
            hsends ▸ hlimit.count, hsends ▸ hlimit.own⟩

/-- A call to an upstream of the route. -/
def isSendTo (id : RouteId) (event : Event effects) : Bool :=
  match event.1 with
  | .send upstream _ => upstream.route == id
  | _ => false

theorem countP_isSendTo (id : RouteId) (history : List (Event effects)) :
    history.countP (isSendTo id) = (sends history).countP fun made => made.1.route == id := by
  induction history with
  | nil => rfl
  | cons event history ih =>
      have hcons : sends (event :: history) = sends [event] ++ sends history :=
        sends_append [event] history
      rw [hcons, List.countP_append, List.countP_cons, ih]
      obtain ⟨op, answer⟩ := event
      cases op with
      | send upstream request =>
          have hsingle : sends [(⟨.send upstream request, answer⟩ : Event effects)] =
              [(upstream, answer)] := rfl
          rw [hsingle, List.countP_singleton]
          exact Nat.add_comm _ _
      -- Any other call counts for nothing on either side.
      | inc counter => cases counter <;> exact Nat.add_comm _ _
      | _ => exact Nat.add_comm _ _

/-- The calls of one thread to the upstreams of a route. -/
theorem countP_isSendTo_le {decode : TokenDecoder} {actions : List GatewayAction}
    (hvalid : config.Valid) {id : RouteId} {route : RouteConfig}
    (hroute : config.routes[id]? = some route) {thread : Thread effects Incoming Response}
    (hthread : thread ∈ (gatewayAfter decode config redisReachable actions).threads) :
    thread.history.countP (isSendTo id) ≤
      if thread.request.routeId config == some id then attemptLimit route else 0 := by
  obtain ⟨index, hindex⟩ := List.mem_iff_getElem?.mp hthread
  rw [countP_isSendTo]
  rcases withinLimit_of_forwards (fun _ _ _ hsplit => forwards_after hvalid hindex hsplit) with
    hnil | ⟨route', id', hlimit⟩
  · rw [hnil]
    exact Nat.zero_le _
  · have hid := routeId_of_matched hvalid hlimit.matched hlimit.configured
    by_cases heq : id' = id
    · subst heq
      obtain rfl : route' = route := Option.some.inj (hlimit.configured.symm.trans hroute)
      rw [hid, if_pos (beq_self_eq_true _)]
      exact (List.countP_le_length).trans hlimit.length_le
    · have hnone : (sends thread.history).countP (fun made => made.1.route == id) = 0 := by
        refine List.countP_eq_zero.mpr fun made hmade hmatch => heq ?_
        exact (hlimit.own made hmade).1.symm.trans (eq_of_beq hmatch)
      rw [hnone]
      exact Nat.zero_le _

/-- **Retries do not multiply without bound.**  In every state of every run, also while requests
are under way and after some were dropped, the attempts of a request are on pairwise different
upstreams of its route, and the calls made so far to the upstreams of a route are at most
`min (retries + 1) upstreams` times the requests that were matched to it. -/
theorem attempts_bounded (decode : TokenDecoder) (config : GatewayConfig)
    (hvalid : config.validate = .ok ()) (redisReachable : Bool) {id : RouteId}
    {route : RouteConfig} (hroute : config.routes[id]? = some route)
    (actions : List GatewayAction) :
    (∀ thread ∈ (gatewayAfter decode config redisReachable actions).threads,
      ((sends thread.history).map Prod.fst).Nodup ∧
        (thread.request.routeId config = some id →
          (sends thread.history).length ≤ attemptLimit route)) ∧
      (gatewayAfter decode config redisReachable actions).log.countP
          (fun entry => isSendTo id entry.2) ≤
        (arrivals actions).countP (fun incoming => incoming.routeId config == some id) *
          attemptLimit route := by
  have hconfig := (validate_eq_ok_iff config).mp hvalid
  constructor
  · intro thread hthread
    obtain ⟨index, hindex⟩ := List.mem_iff_getElem?.mp hthread
    rcases withinLimit_of_forwards (fun _ _ _ hsplit => forwards_after hconfig hindex hsplit) with
      hnil | ⟨route', id', hlimit⟩
    · rw [hnil]
      exact ⟨List.nodup_nil, fun _ => Nat.zero_le _⟩
    · refine ⟨hlimit.nodup, fun hid => ?_⟩
      have hid' := routeId_of_matched hconfig hlimit.matched hlimit.configured
      obtain rfl : id' = id := Option.some.inj (hid'.symm.trans hid)
      obtain rfl : route' = route := Option.some.inj (hlimit.configured.symm.trans hroute)
      exact hlimit.length_le
  · have hlog := Pool.sum_countP_history (server decode (.build config redisReachable))
      World.initial (isSendTo id) actions
    have hrequests := Pool.requests_after (server decode (.build config redisReachable))
      World.initial actions
    have hsum : (((gatewayAfter decode config redisReachable actions).threads.map fun thread =>
        (thread.history.countP (isSendTo id) : Int)).sum) ≤
          (gatewayAfter decode config redisReachable actions).threads.countP
            (fun thread => thread.request.routeId config == some id) * attemptLimit route := by
      refine sum_le_countP_mul fun thread hthread => ?_
      have hthread' := countP_isSendTo_le hconfig hroute hthread
      split at hthread'
      · rename_i hmine
        rw [if_pos hmine]
        exact_mod_cast hthread'
      · rename_i hother
        rw [if_neg hother]
        exact_mod_cast hthread'
    have hcount : (gatewayAfter decode config redisReachable actions).threads.countP
        (fun thread => thread.request.routeId config == some id) =
          (arrivals actions).countP fun incoming => incoming.routeId config == some id := by
      rw [← hrequests, List.countP_map]
      rfl
    rw [hcount] at hsum
    have hlog' := hlog.symm.le.trans hsum
    exact_mod_cast hlog'

theorem attempts_bounded_retried :
    pairConfig.routes[0]? = some pairRoute ∧
      (gatewayAfter (fun _ _ _ => none) pairConfig false retriedRun).log.countP
        (fun entry => isSendTo 0 entry.2) ≤ 1 * 2 := by
  have hroute : pairConfig.routes[0]? = some pairRoute := rfl
  exact ⟨hroute, (attempts_bounded (fun _ _ _ => none) pairConfig rfl false hroute retriedRun).2⟩

end Gateway
end ApiGateway
