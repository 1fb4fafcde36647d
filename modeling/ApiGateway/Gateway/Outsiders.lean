import ApiGateway.Gateway.RouteIsolation

/-!
# Requests that are turned away leave no trace

A request that matches no route, or that the policy of its route refuses, reads the clock,
counts its own answer and is done.  It uses up no rate limit, reads and fills no cache, moves
no cursor and touches no upstream, so what all others are answered does not depend on it.

Whether a policy accepts a request can depend on the time of day.  A request is turned away
here when its policy refuses it at every time.
-/

namespace ApiGateway
namespace Gateway

open Library Core Program

/-- No route takes the request, whatever the time of day. -/
def Incoming.TurnedAway (decode : TokenDecoder) (config : GatewayConfig) (incoming : Incoming) :
    Prop :=
  ∀ route, incoming.routeOf config = some route → ∀ clock,
    authorize decode clock route.auth incoming.request.headers ≠ .ok ()

/-! ## What such a request does -/

/-- Reading a clock, taking an identifier, or counting. -/
def IsQuiet (op : Op) : Prop := op.kind ∈ frameKinds ∨ ∃ counter, op = .inc counter

theorem Exchange.serve_isQuiet_of_refused (decode : TokenDecoder) (exchange : Exchange)
    (hrefused : ∀ clock,
      authorize decode clock exchange.runtime.config.auth exchange.headers ≠ .ok ()) :
    (exchange.serve decode).Makes IsQuiet := by
  refine makes_bind (Makes.mono (exchange.authenticate_makesKinds decode) fun _ hop => Or.inl hop)
    fun trace rejection hreturns => ?_
  cases rejection with
  | some rejection => trivial
  | none =>
      obtain ⟨clock, -, haccepted⟩ := exchange.authenticate_ensures decode trace none hreturns rfl
      exact absurd haccepted (hrefused clock)

theorem handle_isQuiet_of_turnedAway (decode : TokenDecoder) {config : GatewayConfig}
    (hvalid : config.Valid) (redisReachable : Bool) {incoming : Incoming}
    (haway : incoming.TurnedAway decode config) :
    (handle decode (.build config redisReachable) incoming).Makes IsQuiet := by
  refine makes_perform (Or.inl (by decide)) fun _ => makes_bind ?_ fun _ _ _ =>
    makes_perform (Or.inl (by decide)) fun _ => trivial
  refine routeAndProxy_makes_of_serve (fun op hop _ => Or.inl (kind_of_isOpening hop))
    (fun counter => Or.inr ⟨counter, rfl⟩) ?_
  intro route runtime correlation started hmatched hruntime
  obtain ⟨id, -, hroute⟩ := route_of_matchRoute redisReachable hvalid hmatched
  obtain rfl := Option.some.inj (hroute.symm.trans hruntime)
  exact Exchange.serve_isQuiet_of_refused decode _ (haway route hmatched)

/-! ## What the others can see of it -/

/-- Two worlds that differ in the metrics only, once the clock of the second has caught up. -/
structure SameCells (world world' : World) : Prop where
  now : world'.now ≤ world.now
  routes : world.routes = world'.routes
  windows : world.windows = world'.windows

/-- No operation reads a metric. -/
theorem answerNow_sameCells (input : Input) {world world' : World} (hnow : world.now = world'.now)
    (h : SameCells world world') (op : Op) :
    (World.answerNow input world' op).1 = (World.answerNow input world op).1 ∧
      SameCells (World.answerNow input world op).2 (World.answerNow input world' op).2 := by
  obtain ⟨now, routes, windows, metrics⟩ := world
  obtain ⟨now', routes', windows', metrics'⟩ := world'
  obtain rfl : now = now' := hnow
  obtain rfl : routes = routes' := h.routes
  obtain rfl : windows = windows' := h.windows
  cases op <;> exact ⟨rfl, Nat.le_refl _, rfl, rfl⟩

theorem answerNow_isQuiet (input : Input) (world : World) {op : Op} (hop : IsQuiet op) :
    SameCells (World.answerNow input world op).2 world := by
  rcases hop with hkind | ⟨counter, rfl⟩
  · cases op with
    | newUuid | instantNow | systemTime | inc _ | connectionsInc | connectionsDec | observe _ _
    | setCircuitState _ _ _ | breakerState _ => exact ⟨Nat.le_refl _, rfl, rfl⟩
    | _ => simp [frameKinds] at hkind
  · exact ⟨Nat.le_refl _, rfl, rfl⟩

theorem SameCells.trans {first second third : World} (h : SameCells first second)
    (h' : SameCells second third) : SameCells first third :=
  ⟨h'.now.trans h.now, h.routes.trans h'.routes, h.windows.trans h'.windows⟩

theorem SameCells.upstream {world world' : World} (h : SameCells world world')
    (upstream : UpstreamId) : world.upstream upstream = world'.upstream upstream := by
  rw [World.upstream, World.upstream, h.routes]

theorem SameCells.setUpstream {world world' : World} (h : SameCells world world')
    (upstream : UpstreamId) {cell cell' : UpstreamCell} (hcell : cell = cell') :
    SameCells (world.setUpstream upstream cell) (world'.setUpstream upstream cell') := by
  refine ⟨h.now, ?_, h.windows⟩
  simp only [World.setUpstream, World.setRoute, h.routes, hcell]

/-- A request that is turned away makes quiet calls only; nothing is asked of the others. -/
def KeepsQuiet (decode : TokenDecoder) (config : GatewayConfig) (incoming : Incoming) (op : Op) :
    Prop :=
  incoming.TurnedAway decode config → IsQuiet op

open Classical in
theorem isolates_turnedAway (decode : TokenDecoder) {config : GatewayConfig}
    (hvalid : config.Valid) (redisReachable : Bool) :
    Isolates (server decode (.build config redisReachable)) (fun _ => True)
      (fun incoming => decide ¬ incoming.TurnedAway decode config) (fun _ => true)
      (KeepsQuiet decode config) SameButTime SameCells where
  same_refl _ := rfl
  makes incoming _ := by
    by_cases haway : incoming.TurnedAway decode config
    · exact Makes.mono (handle_isQuiet_of_turnedAway decode hvalid redisReachable haway)
        fun _ hop _ => hop
    · exact Makes.mono (handle_keepsToItself decode hvalid redisReachable incoming)
        fun _ _ h => absurd h haway
  call {incoming op world world'} input _ _ _ h := by
    refine ⟨{ input with elapsed := world.now - world'.now + input.elapsed }, rfl, ?_⟩
    have hclock : (world.tick input.elapsed).now =
        (world'.tick (world.now - world'.now + input.elapsed)).now := by
      have hle := h.now
      simp only [World.tick, ← Nat.add_assoc, Nat.add_sub_cancel' hle]
    have hticked : SameCells (world.tick input.elapsed)
        (world'.tick (world.now - world'.now + input.elapsed)) :=
      ⟨hclock.ge, h.routes, h.windows⟩
    have hanswer := answerNow_sameCells input hclock hticked op
    simpa only [server, interpreter, World.answer, World.answerNow_elapsed] using hanswer
  callOther {incoming op world world'} input _ haway hquiet h := by
    have hop : IsQuiet op := hquiet (by simpa using haway)
    have htick : SameCells (world.tick input.elapsed) world := ⟨Nat.le_add_right _ _, rfl, rfl⟩
    exact ((answerNow_isQuiet input (world.tick input.elapsed) hop).trans htick).trans h
  drop {incoming history world world'} _ _ _ h := by
    show SameCells (dropHandler history world) (dropHandler history world')
    unfold dropHandler
    split
    · rename_i upstream _
      refine h.setUpstream upstream ?_
      rw [h.upstream]
    · exact h
  dropOther {incoming history world world'} _ haway hquiet h := by
    show SameCells (dropHandler history world) world'
    unfold dropHandler
    split
    · -- A guard that is held was taken, and that is no quiet call.
      rename_i upstream hlive
      obtain ⟨event, hevent, hop⟩ := mem_of_liveGuard hlive
      have hcall : IsQuiet event.1 := hquiet event hevent (by simpa using haway)
      rw [hop] at hcall
      simp [IsQuiet, frameKinds] at hcall
    · exact h
  disturb {probe world world'} _ h := by
    refine h.setUpstream probe.upstream ?_
    rw [h.upstream]
  disturbOther hown := nomatch hown

open Classical in
/-- The threads of a run whose requests are not turned away. -/
noncomputable def isTaken (decode : TokenDecoder) (config : GatewayConfig)
    (actions : List GatewayAction) (index : Nat) : Bool :=
  (arrivals actions)[index]?.any fun incoming => decide ¬ incoming.TurnedAway decode config

/-- One route that wants a key and admits one request a minute. -/
def lockedConfig : GatewayConfig :=
  { routes := [{ name := "locked", upstreams := [{ url := "http://locked" }]
                 auth := .apiKey ["key"], rateLimit := some { scope := .route, limit := 1 } }] }

def strangerIncoming : Incoming where
  request :=
    { method := .get, uri := .ofPath "/locked" (by decide), headers := [], body := ⟨[], true⟩ }
  peer := "10.0.0.6"

def holderIncoming : Incoming where
  request :=
    { method := .get, uri := .ofPath "/locked" (by decide)
      headers := [(.xApiKey, ⟨Text.asBytes "key", by decide⟩)], body := ⟨[], true⟩ }
  peer := "10.0.0.7"

/-- The stranger comes first, and the holder of the key is let through the limit after it. -/
def lockedRun : List GatewayAction :=
  [.arrive strangerIncoming, .arrive holderIncoming] ++ List.replicate 9 (.advance 0 {}) ++
    List.replicate 6 (.advance 1 {})

end Gateway
end ApiGateway
