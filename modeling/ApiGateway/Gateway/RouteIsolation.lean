import ApiGateway.Gateway.RateStage
import ApiGateway.Library.Isolation

/-!
# Routes are isolated from each other

All requests share one process, and each route has cells of its own.  A handler touches the
cells of the route it was matched to and of no other, so what the requests of the other routes
do, however many they are and however their upstreams behave, does not change what a
request of this route is answered.  There is one way around: the windows of the in-memory
limiter are one map for all routes, so the result is stated for runs in which no request of
another route falls into a bucket of this one.

Time is shared as well: the calls of the others take time, and in the run without them that
time passes before the next call of this route.
-/

namespace ApiGateway
namespace Gateway

open Library Core Program

/-! ## The cells of an operation -/

/-- The route whose cells an operation touches. -/
def Op.route? : Op → Option RouteId
  | .cacheGet id _ | .cachePut id _ _ _ _ _ | .rrFetchAdd id => some id
  | .isHealthy upstream | .allowAt upstream _ | .active upstream | .guardNew upstream
  | .guardDrop upstream | .send upstream _ | .breakerState upstream | .recordSuccess upstream
  | .recordFailureAt upstream _ _ => some upstream.route
  | _ => none

/-- The operation touches the cells of no route but the given one. -/
def TouchesOnly (id : RouteId) (op : Op) : Prop := ∀ route ∈ op.route?, route = id

theorem touchesOnly_of_none {id : RouteId} {op : Op} (h : op.route? = none) : TouchesOnly id op := by
  intro route hroute
  rw [h] at hroute
  cases hroute

theorem touchesOnly_self {id : RouteId} {op : Op} (h : op.route? = some id) :
    TouchesOnly id op := by
  intro route hroute
  rw [h] at hroute
  exact (Option.some.inj hroute).symm

theorem touchesOnly_of_isPickCall {id : RouteId} {op : Op} (h : Balancer.IsPickCall id op) :
    TouchesOnly id op := by
  intro route hroute
  cases op with
  | rrFetchAdd _ | isHealthy _ | allowAt _ _ | active _ | guardNew _ =>
      obtain rfl := Option.some.inj hroute
      exact h
  | instantNow => cases hroute
  | _ => cases h

namespace Exchange

variable (exchange : Exchange)

theorem record_touchesOnly (id : RouteId) (status : StatusCode) :
    (exchange.record status).Makes (TouchesOnly id) :=
  makes_perform (touchesOnly_of_none rfl) fun _ => ⟨touchesOnly_of_none rfl, fun _ => trivial⟩

theorem authenticate_touchesOnly (decode : TokenDecoder) (id : RouteId) :
    (exchange.authenticate decode).Makes (TouchesOnly id) := by
  refine makes_perform (touchesOnly_of_none rfl) fun clock => ?_
  split
  · trivial
  · exact makes_perform (touchesOnly_of_none rfl) fun _ =>
      makes_bind (exchange.record_touchesOnly id _) fun _ _ _ => trivial

theorem limitRate_touchesOnly (id : RouteId) : exchange.limitRate.Makes (TouchesOnly id) := by
  have hlimiter : ∀ op : Op, op.kind ∈ [OpKind.limiter, .ambient] → TouchesOnly id op := by
    intro op hop
    refine touchesOnly_of_none ?_
    cases op with
    | inc counter => cases counter <;> simp at hop
    | _ => first | rfl | simp at hop
  unfold limitRate
  split
  · trivial
  · refine makes_bind (Makes.mono (checkLimit_makesKinds _ _ _ _) fun op hop => ?_)
      fun _ decision _ => ?_
    · exact hlimiter op (by simpa [or_comm] using hop)
    · split
      · exact makes_perform (touchesOnly_of_none rfl) fun _ =>
          makes_bind (exchange.record_touchesOnly id _) fun _ _ _ => trivial
      · trivial

theorem lookupCache_touchesOnly : exchange.lookupCache.Makes (TouchesOnly exchange.runtime.id) := by
  unfold lookupCache
  split
  · trivial
  · refine makes_perform (touchesOnly_self rfl) fun hit => ?_
    split
    · exact makes_perform (touchesOnly_of_none rfl) fun _ =>
        makes_bind (exchange.record_touchesOnly _ _) fun _ _ _ => trivial
    · exact makes_perform (touchesOnly_of_none rfl) fun _ => trivial

theorem finishResponse_touchesOnly (resp : UpstreamResponse) :
    (exchange.finishResponse resp).Makes (TouchesOnly exchange.runtime.id) := by
  refine makes_bind (exchange.record_touchesOnly _ _) fun _ _ _ => ?_
  split
  · refine makes_perform (touchesOnly_of_none rfl) fun _ => ?_
    split
    · trivial
    · split
      · exact makes_perform (touchesOnly_self rfl) fun _ => trivial
      · trivial
  · trivial

theorem settle_touchesOnly (attempt index : Nat) (upstream : Upstream) (result : SendResult) :
    (exchange.settle attempt index upstream result).Makes
      (TouchesOnly exchange.runtime.id) := by
  unfold settle
  split
  · rename_i resp
    simp only
    split
    · refine makes_perform (touchesOnly_of_none rfl) fun _ => makes_perform (touchesOnly_self rfl) fun _ =>
        makes_perform (touchesOnly_of_none rfl) fun _ => ?_
      split
      · trivial
      · exact makes_bind (exchange.finishResponse_touchesOnly resp) fun _ _ _ => trivial
    · exact makes_perform (touchesOnly_self rfl) fun _ =>
        makes_bind (exchange.finishResponse_touchesOnly resp) fun _ _ _ => trivial
  · refine makes_perform (touchesOnly_of_none rfl) fun _ => makes_perform (touchesOnly_self rfl) fun _ =>
      makes_perform (touchesOnly_of_none rfl) fun _ => ?_
    split
    · trivial
    · exact makes_bind (exchange.record_touchesOnly _ _) fun _ _ _ => trivial

theorem tryUpstream_touchesOnly (bodyBytes : Bytes) (attempt index : Nat) (upstream : Upstream) :
    (exchange.tryUpstream bodyBytes attempt index upstream).Makes
      (TouchesOnly exchange.runtime.id) := by
  refine makes_perform (touchesOnly_of_none rfl) fun _ => makes_perform (touchesOnly_self rfl) fun _ =>
    makes_perform (touchesOnly_of_none rfl) fun _ => makes_perform (touchesOnly_self rfl) fun _ =>
      makes_perform (touchesOnly_of_none rfl) fun _ => ?_
  exact makes_bind (exchange.settle_touchesOnly _ _ _ _) fun _ _ _ =>
    makes_perform (touchesOnly_self rfl) fun _ => trivial

theorem attemptLoop_touchesOnly (bodyBytes : Bytes) (remaining attempt : Nat)
    (excluded : List Nat) :
    (exchange.attemptLoop bodyBytes remaining attempt excluded).Makes
      (TouchesOnly exchange.runtime.id) := by
  induction remaining generalizing attempt excluded with
  | zero => exact makes_bind (exchange.record_touchesOnly _ _) fun _ _ _ => trivial
  | succ remaining ih =>
      refine makes_bind (Makes.mono (Balancer.pick_makes _ _ _) fun op hop =>
        touchesOnly_of_isPickCall hop) fun _ picked _ => ?_
      cases picked with
      | none => exact makes_bind (exchange.record_touchesOnly _ _) fun _ _ _ => trivial
      | some picked =>
          refine makes_bind (exchange.tryUpstream_touchesOnly _ _ _ _) fun _ settled _ => ?_
          cases settled with
          | none => exact ih _ _
          | some response => trivial

/-- The stages of a request touch the cells of its own runtime only. -/
theorem serve_touchesOnly (decode : TokenDecoder) :
    (exchange.serve decode).Makes (TouchesOnly exchange.runtime.id) := by
  apply serve_makes_of_stages
  · exact exchange.authenticate_touchesOnly decode _
  · exact exchange.limitRate_touchesOnly _
  · exact exchange.lookupCache_touchesOnly
  · refine makes_perform (touchesOnly_of_none rfl) fun _ => ?_
    split
    · exact makes_bind (exchange.record_touchesOnly _ _) fun _ _ _ => trivial
    · exact exchange.attemptLoop_touchesOnly _ _ _ _

end Exchange

/-! ## The route of a request -/

/-- The position of the route that the matcher selects for a request. -/
def Incoming.routeId (config : GatewayConfig) (incoming : Incoming) : Option RouteId :=
  (incoming.routeOf config).bind fun route =>
    config.routes.findIdx? fun other => other.name == route.name

/-- The bucket of the in-memory limiter that a request is counted in, if any. -/
def Incoming.bucket? (config : GatewayConfig) (incoming : Incoming) : Option String :=
  (incoming.routeOf config).bind fun route => route.rateLimit.map (incoming.bucketOf route)

/-- A name leads back to the position it is configured at. -/
theorem routeId_of_matched {config : GatewayConfig} (hvalid : config.Valid) {incoming : Incoming}
    {route : RouteConfig} {id : RouteId} (hmatched : incoming.routeOf config = some route)
    (hconfigured : config.routes[id]? = some route) : incoming.routeId config = some id := by
  obtain ⟨hlt, hget⟩ := List.getElem?_eq_some_iff.mp hconfigured
  rw [Incoming.routeId, hmatched, Option.bind_some, List.findIdx?_eq_some_iff_getElem]
  refine ⟨hlt, by simp [hget], fun other hother hname => ?_⟩
  have hnames := hvalid.names
  have hother' : other < (config.routes.map RouteConfig.name).length := by
    rw [List.length_map]
    omega
  have heq : (config.routes.map RouteConfig.name)[other]? =
      (config.routes.map RouteConfig.name)[id]? := by
    have hlt' : other < config.routes.length := by omega
    simpa [List.getElem?_map, hlt, hlt', hget] using hname
  exact absurd ((List.getElem?_inj hother' hnames).mp heq) (Nat.ne_of_lt hother)

/-- What a request may do: it touches the cells of its own route, and checks its own bucket. -/
def KeepsToItself (config : GatewayConfig) (incoming : Incoming) (op : Op) : Prop :=
  (∀ route ∈ op.route?, incoming.routeId config = some route) ∧
    ChecksOwnBucket config incoming op

theorem handle_keepsToItself (decode : TokenDecoder) {config : GatewayConfig}
    (hvalid : config.Valid) (redisReachable : Bool) (incoming : Incoming) :
    (handle decode (.build config redisReachable) incoming).Makes
      (KeepsToItself config incoming) := by
  have hroutes : (handle decode (.build config redisReachable) incoming).Makes
      fun op : Op => ∀ route ∈ op.route?, incoming.routeId config = some route := by
    refine makes_perform nofun fun _ => makes_bind ?_ fun _ _ _ =>
      makes_perform nofun fun _ => trivial
    refine routeAndProxy_makes_of_serve ?_ (fun _ => nofun) ?_
    · rintro op (rfl | rfl | rfl) -
      · nofun
      · nofun
      · nofun
    · intro route runtime correlation started hmatched hruntime
      obtain ⟨id, hconfigured, hroute⟩ := route_of_matchRoute redisReachable hvalid hmatched
      obtain rfl := Option.some.inj (hroute.symm.trans hruntime)
      refine Makes.mono (Exchange.serve_touchesOnly _ decode) fun op hop touched htouched => ?_
      rw [hop touched htouched]
      exact routeId_of_matched hvalid hmatched hconfigured
  exact hroutes.and (handle_checksOwnBucket hvalid)

/-! ## What a route can see -/

/-- Two worlds that a route cannot tell apart, once the clock of the second has caught up. -/
structure SeenAlike (id : RouteId) (buckets : String → Prop) (world world' : World) : Prop where
  now : world'.now ≤ world.now
  cells : world.routes id = world'.routes id
  windows : ∀ key, buckets key → world.windows.lookup key = world'.windows.lookup key

theorem routes_setUpstream_ne (world : World) {id : RouteId} {upstream : UpstreamId}
    (cell : UpstreamCell) (h : upstream.route ≠ id) :
    (world.setUpstream upstream cell).routes id = world.routes id :=
  World.setRoute_routes_ne world _ (Ne.symm h)

/-- An operation leaves the cells of every route but its own as they are. -/
theorem routes_answerNow_ne (input : Input) (world : World) {op : Op} {id : RouteId}
    (h : ∀ route ∈ op.route?, route ≠ id) :
    (World.answerNow input world op).2.routes id = world.routes id := by
  cases op with
  | cacheGet route _ | rrFetchAdd route =>
      exact World.setRoute_routes_ne _ _ (Ne.symm (h route rfl))
  | cachePut route _ _ _ _ _ =>
      exact World.setRoute_routes_ne _ _ (Ne.symm (h route rfl))
  | allowAt upstream _ | guardNew upstream | guardDrop upstream | recordSuccess upstream
  | recordFailureAt upstream _ _ =>
      exact routes_setUpstream_ne _ _ (h upstream.route rfl)
  | _ => rfl

theorem windows_answerNow_ne (input : Input) (world : World) {op : Op} {key : String}
    (h : ∀ limit window now, op ≠ .windowCheck key limit window now) :
    (World.answerNow input world op).2.windows.lookup key = world.windows.lookup key := by
  cases op with
  | windowCheck key' limit window now =>
      have hne : key ≠ key' := by
        rintro rfl
        exact h limit window now rfl
      exact AList.lookup_insert_ne hne
  | _ => rfl

theorem SeenAlike.setRoute {id : RouteId} {buckets : String → Prop} {world world' : World}
    (h : SeenAlike id buckets world world') {cell cell' : RouteCell} (hcell : cell = cell') :
    SeenAlike id buckets (world.setRoute id cell) (world'.setRoute id cell') := by
  refine ⟨h.now, ?_, h.windows⟩
  rw [World.setRoute_routes_self, World.setRoute_routes_self, hcell]

/-- An upstream of the route is the same on both sides, and stays so under the same update. -/
theorem SeenAlike.upstream {id : RouteId} {buckets : String → Prop} {world world' : World}
    (h : SeenAlike id buckets world world') {upstream : UpstreamId} (hroute : upstream.route = id) :
    world.upstream upstream = world'.upstream upstream := by
  rw [World.upstream, World.upstream, hroute, h.cells]

theorem SeenAlike.setUpstream {id : RouteId} {buckets : String → Prop} {world world' : World}
    (h : SeenAlike id buckets world world') {upstream : UpstreamId} (hroute : upstream.route = id)
    {cell cell' : UpstreamCell} (hcell : cell = cell') :
    SeenAlike id buckets (world.setUpstream upstream cell) (world'.setUpstream upstream cell') := by
  subst hroute
  refine h.setRoute ?_
  rw [h.cells, hcell]

/-- An operation of the route at the same time: the same answer, and the same cells after. -/
theorem answerNow_seenAlike (input : Input) {world world' : World} {op : Op} {id : RouteId}
    {buckets : String → Prop} (hnow : world.now = world'.now)
    (h : SeenAlike id buckets world world') (hroute : TouchesOnly id op)
    (hbucket : ∀ key limit window now, op = .windowCheck key limit window now → buckets key) :
    (World.answerNow input world' op).1 = (World.answerNow input world op).1 ∧
      SeenAlike id buckets (World.answerNow input world op).2
        (World.answerNow input world' op).2 := by
  cases op with
  | instantNow => exact ⟨hnow.symm, h⟩
  | windowCheck key limit window now =>
      have hkey := h.windows key (hbucket key limit window now rfl)
      simp only [World.answerNow, InMemoryLimiter.check, hkey]
      refine ⟨trivial, h.now, h.cells, fun other hother => ?_⟩
      by_cases heq : other = key
      · rw [heq, AList.lookup_insert, AList.lookup_insert]
      · rw [AList.lookup_insert_ne heq, AList.lookup_insert_ne heq]
        exact h.windows other hother
  | cacheGet route key =>
      obtain rfl := hroute route rfl
      simp only [World.answerNow, World.route, h.cells, hnow]
      exact ⟨trivial, h.setRoute rfl⟩
  | cachePut route cache key status headers body =>
      obtain rfl := hroute route rfl
      simp only [World.answerNow, World.route, h.cells, hnow]
      have htick : SeenAlike route buckets (world.tick input.held) (world'.tick input.held) :=
        ⟨Nat.add_le_add_right h.now _, h.cells, h.windows⟩
      exact ⟨trivial, htick.setRoute rfl⟩
  | rrFetchAdd route =>
      obtain rfl := hroute route rfl
      simp only [World.answerNow, World.route, h.cells]
      exact ⟨trivial, h.setRoute rfl⟩
  | isHealthy upstream | active upstream | breakerState upstream =>
      simp only [World.answerNow, h.upstream (hroute upstream.route rfl)]
      exact ⟨trivial, h⟩
  | allowAt upstream _ | guardNew upstream | guardDrop upstream | recordSuccess upstream
  | recordFailureAt upstream _ _ =>
      simp only [World.answerNow, h.upstream (hroute upstream.route rfl)]
      exact ⟨trivial, h.setUpstream (hroute upstream.route rfl) rfl⟩
  | inc _ | connectionsInc | connectionsDec | observe _ _ | setCircuitState _ _ _ =>
      exact ⟨rfl, h.now, h.cells, h.windows⟩
  | _ => exact ⟨rfl, h⟩

/-! ## Isolation -/

/-- Inputs that differ at most in the time that has passed. -/
def SameButTime (input input' : Input) : Prop := input' = { input with elapsed := input'.elapsed }

/-- A guard that is held was taken. -/
theorem mem_of_liveGuard {history : List (Event effects)} {upstream : UpstreamId}
    (h : liveGuard history = some upstream) :
    ∃ event ∈ history, event.1 = .guardNew upstream := by
  induction history using List.reverseRecOn with
  | nil => cases h
  | append_singleton history event ih =>
      rw [liveGuard, List.foldl_append] at h
      obtain ⟨op, answer⟩ := event
      cases op with
      | guardNew id =>
          obtain rfl := Option.some.inj h
          exact ⟨_, List.mem_append_right _ List.mem_cons_self, rfl⟩
      | guardDrop id => cases h
      | _ =>
          obtain ⟨event, hevent, hop⟩ := ih h
          exact ⟨event, List.mem_append_left _ hevent, hop⟩

/-- The buckets of the requests of a route among those given. -/
def bucketsOf (config : GatewayConfig) (id : RouteId) (requests : List Incoming) (key : String) :
    Prop :=
  ∃ incoming ∈ requests, incoming.routeId config = some id ∧ incoming.bucket? config = some key

theorem bucket_of_checksOwnBucket {config : GatewayConfig} {incoming : Incoming} {key : String}
    {limit : UInt32} {window : Duration} {now : Instant}
    (h : ChecksOwnBucket config incoming (.windowCheck key limit window now)) :
    incoming.bucket? config = some key := by
  obtain ⟨route, rl, hmatched, hlimit, rfl, -, -⟩ := h
  simp [Incoming.bucket?, hmatched, hlimit]

theorem isolates_route (decode : TokenDecoder) {config : GatewayConfig} (hvalid : config.Valid)
    (redisReachable : Bool) (id : RouteId) (requests : List Incoming)
    (hbuckets : ∀ incoming ∈ requests, incoming.routeId config ≠ some id →
      ∀ key ∈ incoming.bucket? config, ¬ bucketsOf config id requests key) :
    Isolates (server decode (.build config redisReachable)) (· ∈ requests)
      (fun incoming => incoming.routeId config == some id) (fun probe => probe.upstream.route == id)
      (KeepsToItself config) SameButTime (SeenAlike id (bucketsOf config id requests)) where
  same_refl _ := rfl
  makes incoming _ := handle_keepsToItself decode hvalid redisReachable incoming
  call {incoming op world world'} input hmem hours hkeeps h := by
    have hid : incoming.routeId config = some id := eq_of_beq hours
    have htouches : TouchesOnly id op := fun route hroute =>
      Option.some.inj ((hkeeps.1 route hroute).symm.trans hid)
    have hbucket : ∀ key limit window now, op = .windowCheck key limit window now →
        bucketsOf config id requests key := by
      rintro key limit window now rfl
      exact ⟨incoming, hmem, hid, bucket_of_checksOwnBucket hkeeps.2⟩
    -- The call waits for as long as the others have taken.
    refine ⟨{ input with elapsed := world.now - world'.now + input.elapsed }, rfl, ?_⟩
    have hclock : (world.tick input.elapsed).now =
        (world'.tick (world.now - world'.now + input.elapsed)).now := by
      have hle := h.now
      simp only [World.tick, ← Nat.add_assoc, Nat.add_sub_cancel' hle]
    have hticked : SeenAlike id (bucketsOf config id requests) (world.tick input.elapsed)
        (world'.tick (world.now - world'.now + input.elapsed)) :=
      ⟨hclock.ge, h.cells, h.windows⟩
    have hanswer := answerNow_seenAlike input hclock hticked htouches hbucket
    simpa only [server, interpreter, World.answer, World.answerNow_elapsed] using hanswer
  callOther {incoming op world world'} input hmem hothers hkeeps h := by
    have hid : incoming.routeId config ≠ some id := ne_of_beq_false hothers
    have hroutes : ∀ route ∈ op.route?, route ≠ id := by
      rintro route hroute rfl
      exact hid (hkeeps.1 route hroute)
    refine ⟨?_, ?_, fun key hkey => ?_⟩
    · exact h.now.trans ((Nat.le_add_right _ _).trans
        (World.now_le_answerNow input (world.tick input.elapsed) op))
    · exact (routes_answerNow_ne input (world.tick input.elapsed) hroutes).trans h.cells
    · refine (windows_answerNow_ne input (world.tick input.elapsed) ?_).trans (h.windows key hkey)
      rintro limit window now rfl
      exact hbuckets incoming hmem hid key (bucket_of_checksOwnBucket hkeeps.2) hkey
  drop {incoming history world world'} _ hours hkeeps h := by
    show SeenAlike id _ (dropHandler history world) (dropHandler history world')
    unfold dropHandler
    split
    · rename_i upstream hlive
      obtain ⟨event, hevent, hop⟩ := mem_of_liveGuard hlive
      have hroute : upstream.route = id :=
        Option.some.inj (((hkeeps event hevent).1 _ (by rw [hop]; rfl)).symm.trans
          (eq_of_beq hours))
      refine h.setUpstream hroute ?_
      rw [h.upstream hroute]
    · exact h
  dropOther {incoming history world world'} _ hothers hkeeps h := by
    show SeenAlike id _ (dropHandler history world) world'
    unfold dropHandler
    split
    · rename_i upstream hlive
      obtain ⟨event, hevent, hop⟩ := mem_of_liveGuard hlive
      have hroute : upstream.route ≠ id := by
        rintro rfl
        exact ne_of_beq_false hothers ((hkeeps event hevent).1 _ (by rw [hop]; rfl))
      exact ⟨h.now, (routes_setUpstream_ne world _ hroute).trans h.cells, h.windows⟩
    · exact h
  disturb {probe world world'} hown h := by
    have hroute : probe.upstream.route = id := eq_of_beq hown
    refine h.setUpstream hroute ?_
    rw [h.upstream hroute]
  disturbOther {probe world world'} hown h := by
    have hroute : probe.upstream.route ≠ id := ne_of_beq_false hown
    exact ⟨h.now, (routes_setUpstream_ne world _ hroute).trans h.cells, h.windows⟩

/-- The threads of a run that are requests of the route. -/
def isOnRoute (config : GatewayConfig) (id : RouteId) (actions : List GatewayAction)
    (index : Nat) : Bool :=
  (arrivals actions)[index]?.any fun incoming => incoming.routeId config == some id

/-- **Routes do not influence each other.**  For every run of the gateway and every route, there
is a run in which the requests of the other routes arrive and do nothing, no probe writes a
flag of another route, and the requests of this route make their calls in the same order with
the same inputs but for the time; and in it every request of this route has made the same calls
with the same answers and stands at the same place, and the cells of the route are the same,
provided that no request of another route falls into a rate-limit bucket of this one. -/
theorem routes_isolated (decode : TokenDecoder) (config : GatewayConfig)
    (hvalid : config.validate = .ok ()) (redisReachable : Bool) (id : RouteId)
    (actions : List GatewayAction)
    (hbuckets : ∀ incoming ∈ arrivals actions, ∀ other ∈ arrivals actions,
      incoming.routeId config = some id → other.routeId config ≠ some id →
        ∀ key, ¬ (incoming.bucket? config = some key ∧ other.bucket? config = some key)) :
    ∃ kept, Silenced (isOnRoute config id actions) (fun probe => probe.upstream.route == id)
        SameButTime actions kept ∧
      (∀ (index : Nat) (thread : Thread effects Incoming Response),
        (gatewayAfter decode config redisReachable actions).threads[index]? = some thread →
        thread.request.routeId config = some id →
          (gatewayAfter decode config redisReachable kept).threads[index]? = some thread) ∧
      (gatewayAfter decode config redisReachable actions).state.routes id =
        (gatewayAfter decode config redisReachable kept).state.routes id := by
  have hconfig := (validate_eq_ok_iff config).mp hvalid
  have hisolates := isolates_route decode hconfig redisReachable id (arrivals actions) (by
    rintro other hother hid key hkey ⟨incoming, hincoming, honroute, hbucket⟩
    exact hbuckets incoming hincoming other hother honroute hid key ⟨hbucket, hkey⟩)
  obtain ⟨kept, hsilenced, halike⟩ := isolated_after hisolates (isOnRoute config id actions)
    World.initial ⟨Nat.le_refl _, rfl, fun _ _ => rfl⟩ actions (fun _ h => h)
    (fun index incoming harrived => by simp [isOnRoute, harrived])
  refine ⟨kept, hsilenced, fun index thread hthread hroute => ?_, halike.state.cells⟩
  have hrequest : (arrivals actions)[index]? = some thread.request := by
    rw [← Pool.requests_after (server decode (.build config redisReachable)) World.initial actions,
      List.getElem?_map]
    exact congrArg (Option.map Thread.request) hthread
  have hmine : isOnRoute config id actions index = true := by
    simp [isOnRoute, hrequest, hroute]
  exact (halike.threads index hmine).symm.trans hthread

/-- Two routes side by side. -/
def besideConfig : GatewayConfig :=
  { routes := [
      { name := "left", «matches» := { pathPrefix := "/left" }
        upstreams := [{ url := "http://left" }] },
      { name := "right", «matches» := { pathPrefix := "/right" }
        upstreams := [{ url := "http://right" }] }] }

def leftIncoming : Incoming where
  request := { method := .get, uri := .ofPath "/left/a" (by decide), headers := [], body := ⟨[], true⟩ }
  peer := "10.0.0.8"

def rightIncoming : Incoming where
  request :=
    { method := .get, uri := .ofPath "/right/b" (by decide), headers := [], body := ⟨[], true⟩ }
  peer := "10.0.0.9"

/-- A request for each route; the one for the right route sends while the other is at it. -/
def besideRun : List GatewayAction :=
  [.arrive leftIncoming, .arrive rightIncoming] ++ List.replicate 6 (.advance 0 {}) ++
    List.replicate 15 (.advance 1 { elapsed := 7 }) ++ List.replicate 15 (.advance 0 {})

theorem routes_isolated_beside :
    besideConfig.validate = .ok () ∧ leftIncoming.routeId besideConfig = some 0 ∧
      rightIncoming.routeId besideConfig = some 1 ∧
      ∃ kept, Silenced (isOnRoute besideConfig 0 besideRun)
          (fun probe => probe.upstream.route == 0) SameButTime besideRun kept ∧
        (gatewayAfter (fun _ _ _ => none) besideConfig false besideRun).state.routes 0 =
          (gatewayAfter (fun _ _ _ => none) besideConfig false kept).state.routes 0 := by
  have hvalid : besideConfig.validate = .ok () := by decide
  have hnone : ∀ incoming ∈ arrivals besideRun, incoming.bucket? besideConfig = none := by
    have harrivals : arrivals besideRun = [leftIncoming, rightIncoming] := rfl
    intro incoming hincoming
    rw [harrivals] at hincoming
    rcases List.mem_cons.mp hincoming with rfl | hright
    · rfl
    · rw [List.mem_singleton.mp hright]
      rfl
  obtain ⟨kept, hsilenced, -, hcells⟩ := routes_isolated (fun _ _ _ => none) besideConfig hvalid
    false 0 besideRun fun incoming hincoming _ _ _ _ key hkey => by
      rw [hnone incoming hincoming] at hkey
      exact nomatch hkey.1
  exact ⟨hvalid, rfl, rfl, kept, hsilenced, hcells⟩

end Gateway
end ApiGateway
