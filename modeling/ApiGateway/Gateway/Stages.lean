import ApiGateway.Gateway.Proxy

/-!
# What each stage of the handler can do

One lemma for each stage says which calls it can make, whatever is answered: the
kinds of its calls, and for the calls that touch a cache also their arguments.  The
results about the handler use these lemmas and do not unfold the stages again.
-/

namespace ApiGateway
namespace Gateway

open Library Core Program

theorem correlationId_makesKinds (request : Request) :
    MakesKinds [.ambient] (correlationId request) := by
  unfold correlationId
  split
  · trivial
  · exact ⟨by simp, fun _ => trivial⟩

/-- The identifier that a call has taken. -/
def takenUuid : Event effects → Option String
  | ⟨.newUuid, id⟩ => some id
  | _ => none

/-- The correlation id of a request that has made the given calls: the text of its own
header, or else the first identifier taken for it. -/
def correlationOf (request : Request) (history : List (Event effects)) : Option String :=
  match request.headers.getStr .xRequestId with
  | some id => some id
  | none => history.findSome? takenUuid

/-- A correlation id stays the same as the request goes on. -/
theorem correlationOf_append {request : Request} {history : List (Event effects)} {id : String}
    (h : correlationOf request history = some id) (more : List (Event effects)) :
    correlationOf request (history ++ more) = some id := by
  unfold correlationOf at h ⊢
  cases hheader : request.headers.getStr .xRequestId with
  | some text =>
      rw [hheader] at h
      exact h
  | none =>
      rw [hheader] at h
      have htaken : history.findSome? takenUuid = some id := h
      show (history ++ more).findSome? takenUuid = some id
      rw [List.findSome?_append, htaken]
      rfl

/-- The handler goes on with the correlation id of the request. -/
theorem correlationId_ensures (request : Request) (before : List (Event effects))
    (hbefore : before.findSome? takenUuid = none) :
    Ensures (correlationId request) fun trace id =>
      correlationOf request (before ++ trace) = some id := by
  unfold correlationId correlationOf
  split
  · rename_i text htext
    exact ensures_done (by simp [htext])
  · rename_i hnone
    refine ensures_call fun id => ensures_done ?_
    simp [hnone, hbefore, takenUuid]

namespace Exchange

theorem length_upstreams_of_runtime {exchange : Exchange} {id : RouteId} {route : RouteConfig}
    (hruntime : exchange.runtime = .fromConfig id route) :
    exchange.runtime.balancer.upstreams.length = route.upstreams.length := by
  simp [hruntime, RouteRuntime.fromConfig, Balancer.fromRoute]

theorem upstreams_ne_nil_of_runtime {exchange : Exchange} {id : RouteId} {route : RouteConfig}
    (hruntime : exchange.runtime = .fromConfig id route) (hupstreams : route.upstreams ≠ []) :
    exchange.runtime.balancer.upstreams ≠ [] := by
  rw [← List.length_pos_iff, length_upstreams_of_runtime hruntime]
  exact List.length_pos_iff.mpr hupstreams

theorem record_makesKinds (exchange : Exchange) (status : StatusCode) :
    MakesKinds [.metric] (exchange.record status) :=
  makes_perform (by simp) fun _ => ⟨by simp, fun _ => trivial⟩

theorem authenticate_makesKinds (decode : TokenDecoder) (exchange : Exchange) :
    MakesKinds [.ambient, .metric] (exchange.authenticate decode) := by
  refine makes_perform (by simp) fun clock => ?_
  split
  · trivial
  · refine makes_perform (by simp) fun _ => ?_
    exact makes_bind ((exchange.record_makesKinds _).mono (by decide)) fun _ _ _ => trivial

/-- Authentication lets a request pass only when its policy accepts the headers at
the time read. -/
theorem authenticate_ensures (decode : TokenDecoder) (exchange : Exchange) :
    Ensures (exchange.authenticate decode) fun trace rejection =>
      rejection = none → ∃ clock, (⟨.systemTime, clock⟩ : Event effects) ∈ trace ∧
        authorize decode clock exchange.runtime.config.auth exchange.headers = .ok () := by
  refine ensures_perform fun clock => ?_
  split
  · rename_i haccepted
    exact ensures_done fun _ => ⟨clock, List.mem_cons_self, haccepted⟩
  · refine ensures_perform fun _ => ?_
    have hrecord : Ensures (exchange.record .unauthorized) fun _ _ => True :=
      fun _ _ _ => trivial
    exact ensures_bind hrecord fun _ _ _ => ensures_done nofun

theorem checkLimit_makesKinds (limiter : RateLimiter) (key : String) (limit : UInt32)
    (window : Duration) :
    MakesKinds [.limiter, .ambient] (checkLimit limiter key limit window) := by
  cases limiter with
  | inMemory => exact makes_perform (by simp) fun now => ⟨by simp, fun _ => trivial⟩
  | redis =>
      unfold checkLimit RedisLimiter.check
      refine makes_perform (by simp) fun count => ?_
      cases count with
      | none => trivial
      | some count =>
          simp only
          split
          · exact makes_perform (by simp) fun _ => makes_perform (by simp) fun _ => trivial
          · exact makes_perform (by simp) fun _ => trivial

theorem limitRate_makesKinds (exchange : Exchange) :
    MakesKinds [.limiter, .ambient, .metric] exchange.limitRate := by
  unfold limitRate
  split
  · trivial
  · refine makes_bind ((checkLimit_makesKinds _ _ _ _).mono (by decide)) fun _ decision _ => ?_
    split
    · refine makes_perform (by simp) fun _ => ?_
      exact makes_bind ((exchange.record_makesKinds _).mono (by decide)) fun _ _ _ => trivial
    · trivial

/-- The calls of a cache lookup.  The cache is only read when it is enabled. -/
def IsLookupCall (exchange : Exchange) (op : Op) : Prop :=
  op.kind = .metric ∨
    (exchange.cacheEnabled = true ∧ op = .cacheGet exchange.runtime.id exchange.cacheKey)

theorem lookupCache_makes (exchange : Exchange) :
    exchange.lookupCache.Makes exchange.IsLookupCall := by
  unfold lookupCache
  split
  · trivial
  · rename_i henabled
    refine makes_perform (Or.inr ⟨not_not.mp henabled, rfl⟩) fun hit => ?_
    split
    · refine makes_perform (Or.inl rfl) fun _ => ?_
      refine makes_bind (Makes.mono (exchange.record_makesKinds _) fun _ hop => ?_)
        fun _ _ _ => trivial
      exact Or.inl (List.mem_singleton.mp hop)
    · exact makes_perform (Or.inl rfl) fun _ => trivial

theorem lookupCache_makesKinds (exchange : Exchange) :
    MakesKinds [.cacheGet, .metric] exchange.lookupCache := by
  refine exchange.lookupCache_makes.mono fun op hop => ?_
  rcases hop with hmetric | ⟨-, rfl⟩
  · rw [hmetric]
    decide
  · exact List.mem_cons_self

/-- The store of a response that may be stored and has been read to its end. -/
def IsStoreCall (exchange : Exchange) (resp : UpstreamResponse) (op : Op) : Prop :=
  exchange.stores resp = true ∧ resp.body.complete = true ∧
    ∃ cache, exchange.runtime.cache = some cache ∧
      op = .cachePut exchange.runtime.id cache exchange.cacheKey resp.status.code
        (headerPairs (exchange.outHeaders resp)) resp.body.bytes

def IsFinishCall (exchange : Exchange) (resp : UpstreamResponse) (op : Op) : Prop :=
  op.kind ∈ [.metric, .body] ∨ exchange.IsStoreCall resp op

theorem finishResponse_makes (exchange : Exchange) (resp : UpstreamResponse) :
    (exchange.finishResponse resp).Makes (exchange.IsFinishCall resp) := by
  have hrecord : MakesKinds [.metric, .body] (exchange.record resp.status) :=
    (exchange.record_makesKinds resp.status).mono (by decide)
  refine makes_bind (Makes.mono hrecord fun _ hop => Or.inl hop) fun _ _ _ => ?_
  split
  · rename_i hstores
    refine makes_perform (Or.inl (by simp)) fun _ => ?_
    split
    · trivial
    · rename_i hcomplete
      split
      · rename_i cache hcache
        exact makes_perform (Or.inr ⟨hstores, not_not.mp hcomplete, cache, hcache, rfl⟩)
          fun _ => trivial
      · trivial
  · trivial

theorem finishResponse_makesKinds (exchange : Exchange) (resp : UpstreamResponse) :
    MakesKinds [.metric, .body, .cachePut] (exchange.finishResponse resp) := by
  refine (exchange.finishResponse_makes resp).mono fun op hop => ?_
  rcases hop with hkind | ⟨-, -, cache, -, rfl⟩
  · exact List.mem_append_left [.cachePut] hkind
  · simp

/-- The calls made for the result of an attempt. -/
def IsSettleCall (exchange : Exchange) (result : SendResult) (op : Op) : Prop :=
  op.kind ∈ [.outcome, .ambient, .metric, .body] ∨
    ∃ resp, result = .ok resp ∧ exchange.IsStoreCall resp op

theorem settle_makes (exchange : Exchange) (attempt index : Nat) (upstream : Upstream)
    (result : SendResult) :
    (exchange.settle attempt index upstream result).Makes (exchange.IsSettleCall result) := by
  have hfinish : ∀ resp, result = .ok resp →
      (exchange.finishResponse resp).Makes (exchange.IsSettleCall result) := by
    intro resp hresp
    refine (exchange.finishResponse_makes resp).mono fun _ hop => ?_
    rcases hop with hkind | hstore
    · exact Or.inl (List.mem_cons_of_mem _ (List.mem_cons_of_mem _ hkind))
    · exact Or.inr ⟨resp, hresp, hstore⟩
  unfold settle
  split
  · rename_i resp
    simp only
    split
    · refine makes_perform (Or.inl (by simp)) fun failedAt =>
        makes_perform (Or.inl (by simp)) fun _ => makes_perform (Or.inl (by simp)) fun _ => ?_
      split
      · trivial
      · exact makes_bind (hfinish resp rfl) fun _ _ _ => trivial
    · refine makes_perform (Or.inl (by simp)) fun _ => ?_
      exact makes_bind (hfinish resp rfl) fun _ _ _ => trivial
  · refine makes_perform (Or.inl (by simp)) fun failedAt =>
      makes_perform (Or.inl (by simp)) fun _ => makes_perform (Or.inl (by simp)) fun _ => ?_
    split
    · trivial
    · refine makes_bind (Makes.mono (exchange.record_makesKinds _) fun _ hop => ?_)
        fun _ _ _ => trivial
      rw [IsSettleCall, List.mem_singleton.mp hop]
      exact Or.inl (by simp)

theorem settle_makesKinds (exchange : Exchange) (attempt index : Nat) (upstream : Upstream)
    (result : SendResult) :
    MakesKinds [.outcome, .ambient, .metric, .body, .cachePut]
      (exchange.settle attempt index upstream result) := by
  refine (exchange.settle_makes attempt index upstream result).mono fun op hop => ?_
  rcases hop with hkind | ⟨resp, -, -, -, cache, -, rfl⟩
  · exact List.mem_append_left [.cachePut] hkind
  · simp

/-- The kinds of calls made after a request has been admitted and not found in a cache. -/
def proxyKinds : List OpKind :=
  [.ambient, .metric, .body, .pick, .send, .outcome, .cachePut, .guardDrop]

theorem tryUpstream_makesKinds (exchange : Exchange) (bodyBytes : Bytes) (attempt index : Nat)
    (upstream : Upstream) :
    MakesKinds proxyKinds (exchange.tryUpstream bodyBytes attempt index upstream) := by
  refine makes_perform (by simp [proxyKinds]) fun _ => makes_perform (by simp [proxyKinds])
    fun result => makes_perform (by simp [proxyKinds]) fun _ => makes_perform
      (by simp [proxyKinds]) fun _ => makes_perform (by simp [proxyKinds]) fun _ => ?_
  refine makes_bind ((exchange.settle_makesKinds attempt index upstream result).mono (by decide))
    fun _ _ _ => makes_perform (by simp [proxyKinds]) fun _ => trivial

theorem attemptLoop_makesKinds (exchange : Exchange) (bodyBytes : Bytes) (remaining attempt : Nat)
    (excluded : List Nat) :
    MakesKinds proxyKinds (exchange.attemptLoop bodyBytes remaining attempt excluded) := by
  have hrecord : ∀ status, MakesKinds proxyKinds (exchange.record status) :=
    fun status => (exchange.record_makesKinds status).mono (by decide)
  induction remaining generalizing attempt excluded with
  | zero => exact makes_bind (hrecord _) fun _ _ _ => trivial
  | succ remaining ih =>
      refine makes_bind ((Balancer.pick_makesKinds _ _ _).mono (by decide)) fun _ picked _ => ?_
      cases picked with
      | none => exact makes_bind (hrecord _) fun _ _ _ => trivial
      | some picked =>
          refine makes_bind (exchange.tryUpstream_makesKinds _ _ _ _) fun _ settled _ => ?_
          cases settled with
          | none => exact ih (attempt + 1) (excluded ++ [picked.1])
          | some response => trivial

theorem proxy_makesKinds (exchange : Exchange) : MakesKinds proxyKinds exchange.proxy := by
  refine makes_perform (by simp [proxyKinds]) fun _ => ?_
  split
  · exact makes_bind ((exchange.record_makesKinds _).mono (by decide)) fun _ _ _ => trivial
  · exact exchange.attemptLoop_makesKinds _ _ _ _

/-- The calls of all stages but those that make up an attempt: they neither send nor read
or show the state of a breaker, and leave the connections alone. -/
def IsPlainCall : Op → Prop
  | .connectionsInc | .connectionsDec | .send _ _ => False
  | .breakerState _ | .setCircuitState _ _ _ => False
  | _ => True

theorem isPlainCall_of_kind {op : Op} (h : op.kind ∉ [.metric, .send]) : IsPlainCall op := by
  cases op with
  | connectionsInc | connectionsDec | send _ _ | breakerState _ | setCircuitState _ _ _ =>
      simp at h
  | _ => trivial

theorem isPlainCall_of_makesKinds {α : Type} {kinds : List OpKind} {program : GatewayProgram α}
    (h : MakesKinds kinds program) (hkinds : ∀ kind ∈ kinds, kind ∉ [.metric, .send]) :
    program.Makes IsPlainCall :=
  Makes.mono h fun op hop => isPlainCall_of_kind (hkinds op.kind hop)

theorem record_isPlainCall (exchange : Exchange) (status : StatusCode) :
    (exchange.record status).Makes IsPlainCall :=
  makes_perform trivial fun _ => ⟨trivial, fun _ => trivial⟩

theorem authenticate_isPlainCall (decode : TokenDecoder) (exchange : Exchange) :
    (exchange.authenticate decode).Makes IsPlainCall := by
  refine makes_perform trivial fun clock => ?_
  split
  · trivial
  · exact makes_perform trivial fun _ =>
      makes_bind (exchange.record_isPlainCall _) fun _ _ _ => trivial

theorem limitRate_isPlainCall (exchange : Exchange) :
    exchange.limitRate.Makes IsPlainCall := by
  unfold limitRate
  split
  · trivial
  · refine makes_bind (isPlainCall_of_makesKinds (checkLimit_makesKinds _ _ _ _)
      (by decide)) fun _ decision _ => ?_
    split
    · exact makes_perform trivial fun _ =>
        makes_bind (exchange.record_isPlainCall _) fun _ _ _ => trivial
    · trivial

theorem lookupCache_isPlainCall (exchange : Exchange) :
    exchange.lookupCache.Makes IsPlainCall := by
  unfold lookupCache
  split
  · trivial
  · refine makes_perform trivial fun hit => ?_
    split
    · exact makes_perform trivial fun _ =>
        makes_bind (exchange.record_isPlainCall _) fun _ _ _ => trivial
    · exact makes_perform trivial fun _ => trivial

theorem finishResponse_isPlainCall (exchange : Exchange) (resp : UpstreamResponse) :
    (exchange.finishResponse resp).Makes IsPlainCall := by
  refine makes_bind (exchange.record_isPlainCall resp.status) fun _ _ _ => ?_
  split
  · refine makes_perform trivial fun _ => ?_
    split
    · trivial
    · split
      · exact makes_perform trivial fun _ => trivial
      · trivial
  · trivial

theorem settle_isPlainCall (exchange : Exchange) (attempt index : Nat) (upstream : Upstream)
    (result : SendResult) :
    (exchange.settle attempt index upstream result).Makes IsPlainCall := by
  unfold settle
  split
  · rename_i resp
    simp only
    split
    · refine makes_perform trivial fun _ => makes_perform trivial fun _ =>
        makes_perform trivial fun _ => ?_
      split
      · trivial
      · exact makes_bind (exchange.finishResponse_isPlainCall resp) fun _ _ _ => trivial
    · exact makes_perform trivial fun _ =>
        makes_bind (exchange.finishResponse_isPlainCall resp) fun _ _ _ => trivial
  · refine makes_perform trivial fun _ => makes_perform trivial fun _ =>
      makes_perform trivial fun _ => ?_
    split
    · trivial
    · exact makes_bind (exchange.record_isPlainCall _) fun _ _ _ => trivial

/-- The calls of the stages.  They leave the connections alone, and what they send has the
forwarded headers. -/
def IsServeCall (exchange : Exchange) : Op → Prop
  | .connectionsInc | .connectionsDec => False
  | .send _ request => request.headers = exchange.fwdHeaders
  | _ => True

theorem isServeCall_of_plain {α : Type} (exchange : Exchange) {program : GatewayProgram α}
    (h : program.Makes IsPlainCall) : program.Makes exchange.IsServeCall := by
  refine h.mono fun op hop => ?_
  cases op with
  | connectionsInc | connectionsDec | send _ _ => cases hop
  | _ => trivial

theorem attemptLoop_isServeCall (exchange : Exchange) (bodyBytes : Bytes)
    (remaining attempt : Nat) (excluded : List Nat) :
    (exchange.attemptLoop bodyBytes remaining attempt excluded).Makes exchange.IsServeCall := by
  have hrecord : ∀ status, (exchange.record status).Makes exchange.IsServeCall :=
    fun status => exchange.isServeCall_of_plain (exchange.record_isPlainCall status)
  induction remaining generalizing attempt excluded with
  | zero => exact makes_bind (hrecord _) fun _ _ _ => trivial
  | succ remaining ih =>
      have hpick := isPlainCall_of_makesKinds (Balancer.pick_makesKinds
        exchange.runtime.balancer exchange.runtime.id excluded) (by decide)
      refine makes_bind (exchange.isServeCall_of_plain hpick) fun _ picked _ => ?_
      cases picked with
      | none => exact makes_bind (hrecord _) fun _ _ _ => trivial
      | some picked =>
          have hattempt : (exchange.tryUpstream bodyBytes attempt picked.1 picked.2).Makes
              exchange.IsServeCall := by
            refine makes_perform trivial fun _ => makes_perform rfl fun result =>
              makes_perform trivial fun _ => makes_perform trivial fun _ =>
                makes_perform trivial fun _ => ?_
            have hsettle := exchange.settle_isPlainCall attempt picked.1 picked.2 result
            exact makes_bind (exchange.isServeCall_of_plain hsettle)
              fun _ _ _ => makes_perform trivial fun _ => trivial
          refine makes_bind hattempt fun _ settled _ => ?_
          cases settled with
          | none => exact ih _ _
          | some response => trivial

/-- What each stage can do is what the stages can do together. -/
theorem serve_makes_of_stages {allowed : Op → Prop} {decode : TokenDecoder} {exchange : Exchange}
    (hauthenticate : (exchange.authenticate decode).Makes allowed)
    (hlimit : exchange.limitRate.Makes allowed) (hlookup : exchange.lookupCache.Makes allowed)
    (hproxy : exchange.proxy.Makes allowed) : (exchange.serve decode).Makes allowed := by
  refine makes_bind hauthenticate fun _ rejection _ => ?_
  cases rejection with
  | some rejection => trivial
  | none =>
      refine makes_bind hlimit fun _ rejection _ => ?_
      cases rejection with
      | some rejection => trivial
      | none =>
          refine makes_bind hlookup fun _ hit _ => ?_
          cases hit with
          | some hit => trivial
          | none => exact hproxy

/-- What the stages of a request can do. -/
theorem serve_makes (decode : TokenDecoder) (exchange : Exchange) :
    (exchange.serve decode).Makes exchange.IsServeCall := by
  apply serve_makes_of_stages
  · exact exchange.isServeCall_of_plain (exchange.authenticate_isPlainCall decode)
  · exact exchange.isServeCall_of_plain exchange.limitRate_isPlainCall
  · exact exchange.isServeCall_of_plain exchange.lookupCache_isPlainCall
  · refine makes_perform trivial fun _ => ?_
    split
    · exact makes_bind (exchange.isServeCall_of_plain (exchange.record_isPlainCall _))
        fun _ _ _ => trivial
    · exact exchange.attemptLoop_isServeCall _ _ _ _

/-- The stages of a request in order: a stage is entered when all stages before it have let
the request pass. -/
theorem serve_guarded_of_stages {allowed : List (Event effects) → Op → Prop}
    {decode : TokenDecoder} {exchange : Exchange} {history : List (Event effects)}
    (hauthenticate : (exchange.authenticate decode).Guarded allowed history)
    (hlimit : ∀ auth, Returns (exchange.authenticate decode) auth none →
      exchange.limitRate.Guarded allowed (history ++ auth))
    (hlookup : ∀ auth limited, Returns (exchange.authenticate decode) auth none →
      Returns exchange.limitRate limited none →
        exchange.lookupCache.Guarded allowed (history ++ auth ++ limited))
    (hproxy : ∀ auth limited looked, Returns (exchange.authenticate decode) auth none →
      Returns exchange.limitRate limited none → Returns exchange.lookupCache looked none →
        exchange.proxy.Guarded allowed (history ++ auth ++ limited ++ looked)) :
    (exchange.serve decode).Guarded allowed history := by
  refine guarded_bind hauthenticate fun auth rejection hauth => ?_
  cases rejection with
  | some rejection => trivial
  | none =>
      refine guarded_bind (hlimit auth hauth) fun limited rejection hlimited => ?_
      cases rejection with
      | some rejection => trivial
      | none =>
          refine guarded_bind (hlookup auth limited hauth hlimited) fun looked hit hlooked => ?_
          cases hit with
          | some hit => trivial
          | none => exact hproxy auth limited looked hauth hlimited hlooked

end Exchange

/-- What a handler does before and after the stages: it reads the clock, takes an
identifier and counts. -/
def frameKinds : List OpKind := [.ambient, .metric]

/-- The calls of a handler before its stages. -/
def IsOpening (op : Op) : Prop := op = .connectionsInc ∨ op = .instantNow ∨ op = .newUuid

theorem kind_of_isOpening {op : Op} (h : IsOpening op) : op.kind ∈ frameKinds := by
  rcases h with rfl | rfl | rfl
  · simp [frameKinds]
  · simp [frameKinds]
  · simp [frameKinds]

theorem correlationId_makes (request : Request) : (correlationId request).Makes IsOpening := by
  unfold correlationId
  split
  · trivial
  · exact ⟨Or.inr (Or.inr rfl), fun _ => trivial⟩

/-- The calls of a handler up to its stages: they open it, and settle its correlation id. -/
theorem opening_spec (started : Instant) {request : Request} {taken : List (Event effects)}
    {correlation : String} (h : Returns (correlationId request) taken correlation) :
    (∀ event ∈ (⟨.connectionsInc, ()⟩ : Event effects) :: ⟨.instantNow, started⟩ :: taken,
        IsOpening event.1) ∧
      correlationOf request (⟨.connectionsInc, ()⟩ :: ⟨.instantNow, started⟩ :: taken) =
        some correlation := by
  constructor
  · intro event hevent
    rcases List.mem_cons.mp hevent with rfl | hrest
    · exact Or.inl rfl
    · rcases List.mem_cons.mp hrest with rfl | htaken
      · exact Or.inr (Or.inl rfl)
      · exact Makes.of_mem (correlationId_makes request) h htaken
  · exact correlationId_ensures request [⟨.connectionsInc, ()⟩, ⟨.instantNow, started⟩] rfl taken
      correlation h

/-- What can be called around the stages, and by the stages on the runtime found for the
matched route, is what can be called for a request. -/
theorem routeAndProxy_makes_of_serve {allowed : Op → Prop} {decode : TokenDecoder}
    {state : GatewayState} {incoming : Incoming}
    (hopening : ∀ op, IsOpening op → op ≠ .connectionsInc → allowed op)
    (hcount : ∀ counter, allowed (.inc counter))
    (hserve : ∀ route runtime correlation started,
      matchRoute state.config (some (requestHost incoming.request)) incoming.request.uri.path =
        some route →
      state.route route.name = some runtime →
        ((Exchange.new state incoming route.name runtime correlation started).serve
          decode).Makes allowed) :
    (routeAndProxy decode state incoming).Makes allowed := by
  refine makes_perform (hopening _ (Or.inr (Or.inl rfl)) nofun) fun started => ?_
  have hcorrelation : (correlationId incoming.request).Makes allowed := by
    unfold correlationId
    split
    · trivial
    · exact ⟨hopening _ (Or.inr (Or.inr rfl)) nofun, fun _ => trivial⟩
  refine makes_bind hcorrelation fun _ correlation _ => ?_
  split
  · exact makes_perform (hcount _) fun _ => trivial
  · rename_i route hmatched
    split
    · trivial
    · rename_i runtime hruntime
      exact hserve route runtime correlation started hmatched hruntime

/-- A condition that allows the calls around the stages holds of the whole handler when it
holds of the stages, on the runtime found for the matched route. -/
theorem handle_guarded_of_serve {allowed : List (Event effects) → Op → Prop}
    {decode : TokenDecoder} {state : GatewayState} {incoming : Incoming}
    (hframe : ∀ history op, op.kind ∈ frameKinds → allowed history op)
    (hserve : ∀ route runtime correlation started history,
      matchRoute state.config (some (requestHost incoming.request)) incoming.request.uri.path =
        some route →
      state.route route.name = some runtime →
      (∀ event ∈ history, event.1.kind ∈ frameKinds) →
      correlationOf incoming.request history = some correlation →
        ((Exchange.new state incoming route.name runtime correlation started).serve
          decode).Guarded allowed history) :
    (handle decode state incoming).Guarded allowed [] := by
  refine guarded_perform (hframe _ _ (by decide)) fun _ => ?_
  refine guarded_bind ?_ fun _ _ _ =>
    guarded_perform (hframe _ _ (by decide)) fun _ => trivial
  refine guarded_perform (hframe _ _ (by decide)) fun started => ?_
  have hcorrelation : MakesKinds frameKinds (correlationId incoming.request) :=
    (correlationId_makesKinds incoming.request).mono (by decide)
  refine guarded_bind (Makes.guarded hcorrelation fun later op hop => hframe _ op hop)
    fun trace correlation hreturns => ?_
  obtain ⟨hopening, hcorrelated⟩ := opening_spec started hreturns
  split
  · exact guarded_perform (hframe _ _ (by simp [frameKinds])) fun _ => trivial
  · rename_i route hmatched
    split
    · trivial
    · rename_i runtime hruntime
      exact hserve route runtime correlation started _ hmatched hruntime
        (fun event hevent => kind_of_isOpening (hopening event hevent)) hcorrelated

/-- How a handler that has returned has run: after its opening calls it found no route, or
no runtime for its route, or went through the stages. -/
theorem handle_returns {decode : TokenDecoder} {state : GatewayState} {incoming : Incoming}
    {trace : List (Event effects)} {response : Response}
    (h : Returns (handle decode state incoming) trace response) :
    ∃ opening inner correlation started, trace = opening ++ inner ++ [⟨.connectionsDec, ()⟩] ∧
      (∀ event ∈ opening, IsOpening event.1) ∧
      correlationOf incoming.request opening = some correlation ∧
      ((matchRoute state.config (some (requestHost incoming.request))
            incoming.request.uri.path = none ∧
          inner = [⟨.inc (.requests "none" incoming.request.method.asStr "404"), ()⟩] ∧
          response = error .notFound "no matching route" correlation) ∨
        ∃ route, matchRoute state.config (some (requestHost incoming.request))
            incoming.request.uri.path = some route ∧
          ((state.route route.name = none ∧ inner = [] ∧
              response = error .internalServerError "route runtime missing" correlation) ∨
            ∃ runtime, state.route route.name = some runtime ∧
              Returns ((Exchange.new state incoming route.name runtime correlation started).serve
                decode) inner response)) := by
  obtain ⟨_, counted, rfl, hcounted⟩ := returns_perform.mp h
  obtain ⟨answer, routed, closing, rfl, hrouted, hclosing⟩ := returns_bind.mp hcounted
  obtain ⟨_, rest, rfl, hdone⟩ := returns_perform.mp hclosing
  obtain ⟨rfl, rfl⟩ := returns_done.mp hdone
  obtain ⟨started, timed, rfl, htimed⟩ := returns_perform.mp hrouted
  obtain ⟨correlation, taken, inner, rfl, htaken, hinner⟩ := returns_bind.mp htimed
  obtain ⟨hopening, hcorrelated⟩ := opening_spec started htaken
  refine ⟨_, inner, correlation, started, rfl, hopening, hcorrelated, ?_⟩
  split at hinner
  · rename_i hunmatched
    obtain ⟨_, rest, rfl, hdone⟩ := returns_perform.mp hinner
    obtain ⟨rfl, rfl⟩ := returns_done.mp hdone
    exact Or.inl ⟨hunmatched, rfl, rfl⟩
  · rename_i route hmatched
    refine Or.inr ⟨route, hmatched, ?_⟩
    split at hinner
    · rename_i hnone
      obtain ⟨rfl, rfl⟩ := returns_done.mp hinner
      exact Or.inl ⟨hnone, rfl, rfl⟩
    · rename_i runtime hruntime
      exact Or.inr ⟨runtime, hruntime, hinner⟩

end Gateway
end ApiGateway
