import ApiGateway.Gateway.Mediation
import ApiGateway.Library.Tally

/-!
# The gauge of active connections

A handler increments the gauge by its first call and decrements it by its last one.  A
handler that is dropped while it waits never makes its last call, so the gauge counts it
for ever: it is the number of handlers in flight exactly as long as none is dropped.
-/

namespace ApiGateway
namespace Gateway

open Library Core Program

abbrev Handler := Thread effects Incoming Response

/-- The handler has started, and has neither returned nor been dropped. -/
def inFlight (handler : Handler) : Bool :=
  !handler.history.isEmpty && !handler.rest.isDone && !handler.dropped

/-- What a call adds to the gauge. -/
def connectionsOf : Event effects → Int
  | ⟨.connectionsInc, _⟩ => 1
  | ⟨.connectionsDec, _⟩ => -1
  | _ => 0

def connections (history : List (Event effects)) : Int := (history.map connectionsOf).sum

@[simp] theorem connections_nil : connections [] = 0 := rfl

@[simp] theorem connections_cons (event : Event effects) (history : List (Event effects)) :
    connections (event :: history) = connectionsOf event + connections history := by
  simp [connections]

@[simp] theorem connections_append (first second : List (Event effects)) :
    connections (first ++ second) = connections first + connections second := by
  simp [connections]

theorem activeConnections_answer (input : Input) (world : World) (op : Op) :
    (World.answer input world op).2.metrics.activeConnections =
      world.metrics.activeConnections + connectionsOf ⟨op, (World.answer input world op).1⟩ := by
  cases op with
  | connectionsInc | connectionsDec => rfl
  | _ => exact (Int.add_zero _).symm

/-- The gauge is what the handlers have added to it. -/
def connectionTally (decode : TokenDecoder) (state : GatewayState) :
    Tally (server decode state) where
  quantity world := world.metrics.activeConnections
  share handler := connections handler.history
  arrive _ := rfl
  call handler op next input world _ _ := by
    have hanswer := activeConnections_answer input world op
    show (World.answer input world op).2.metrics.activeConnections + _ =
      _ + connections (handler.history ++ [⟨op, (World.answer input world op).1⟩])
    simp only [connections_append, connections_cons, connections_nil]
    omega
  drop handler op next world _ _ := by
    have hmetrics : (dropHandler handler.history world).metrics = world.metrics := by
      unfold dropHandler
      split
      · rfl
      · rfl
    show (dropHandler handler.history world).metrics.activeConnections + _ = _
    rw [hmetrics]
  disturb _ _ := rfl

/-! ## What one handler has added -/

/-- The call is none of the two that change the gauge. -/
def LeavesConnections (op : Op) : Prop := op ≠ .connectionsInc ∧ op ≠ .connectionsDec

theorem connections_eq_zero {history : List (Event effects)}
    (h : ∀ event ∈ history, LeavesConnections event.1) :
    connections history = 0 := by
  induction history with
  | nil => rfl
  | cons event history ih =>
      have hevent : connectionsOf event = 0 := by
        obtain ⟨op, answer⟩ := event
        obtain ⟨hinc, hdec⟩ := h _ List.mem_cons_self
        cases op with
        | connectionsInc => exact absurd rfl hinc
        | connectionsDec => exact absurd rfl hdec
        | _ => rfl
      rw [connections_cons, hevent, ih fun other hother => h other (List.mem_cons_of_mem _ hother)]
      rfl

theorem routeAndProxy_makes (decode : TokenDecoder) (state : GatewayState) (incoming : Incoming) :
    (routeAndProxy decode state incoming).Makes LeavesConnections := by
  apply routeAndProxy_makes_of_serve
  · rintro op (rfl | rfl | rfl) hother
    · exact absurd rfl hother
    · exact ⟨nofun, nofun⟩
    · exact ⟨nofun, nofun⟩
  · exact fun _ => ⟨nofun, nofun⟩
  · intro route runtime correlation started _ _
    refine (Exchange.serve_makes decode _).mono fun op hop => ⟨?_, ?_⟩
    · rintro rfl
      exact hop
    · rintro rfl
      exact hop

/-- A handler counts for one from its first call to its last. -/
theorem connections_of_steps {decode : TokenDecoder} {state : GatewayState} {incoming : Incoming}
    {history : List (Event effects)} {rest : GatewayProgram Response}
    (h : Steps (handle decode state incoming) history rest) :
    connections history = if history.isEmpty || rest.isDone then 0 else 1 := by
  have hmakes := routeAndProxy_makes decode state incoming
  cases h with
  | refl => rfl
  | call _ _ counted hrouted =>
      have hbind : Steps (routeAndProxy decode state incoming >>= fun response =>
          perform .connectionsDec >>= fun _ => pure response) _ rest := hrouted
      rcases steps_bind hbind with ⟨op, cont, hsteps, rfl⟩ |
        ⟨response, routed, closing, rfl, hreturns, hclosing⟩
      · have hzero := connections_eq_zero fun event hevent => Makes.of_mem hmakes hsteps hevent
        rw [connections_cons, hzero]
        rfl
      · have hzero := connections_eq_zero fun event hevent => Makes.of_mem hmakes hreturns hevent
        cases hclosing with
        | refl =>
            rw [connections_cons, connections_append, hzero]
            rfl
        | call _ _ closed hdone =>
            cases hdone
            rw [connections_cons, connections_append, hzero]
            rfl

/-- A handler waits only after its first call. -/
theorem history_ne_nil_of_awaits {decode : TokenDecoder} {state : GatewayState}
    {incoming : Incoming} {history : List (Event effects)} {op : Op}
    {next : op.Res → GatewayProgram Response}
    (h : Steps (handle decode state incoming) history (.call op next))
    (hawaits : op.awaits = true) : history ≠ [] := by
  rintro rfl
  cases h
  cases hawaits

/-! ## Every run -/

section Run

variable (decode : TokenDecoder) (config : GatewayConfig) (redisReachable : Bool)
  (actions : List GatewayAction)

/-- The number of handlers in flight. -/
def inFlightCount (pool : GatewayPool) : Nat := pool.threads.countP inFlight

/-- The gauge counts the handlers in flight, and those that were dropped. -/
theorem activeConnections_eq :
    (gatewayAfter decode config redisReachable actions).state.metrics.activeConnections =
      inFlightCount (gatewayAfter decode config redisReachable actions) +
        (gatewayAfter decode config redisReachable actions).threads.countP Thread.dropped := by
  have hsum : (gatewayAfter decode config redisReachable actions).state.metrics.activeConnections =
      ((gatewayAfter decode config redisReachable actions).threads.map fun handler =>
        connections handler.history).sum :=
    Pool.quantity_after (connectionTally decode (.build config redisReachable)) rfl actions
  rw [hsum, inFlightCount, ← sum_map_eq_countP fun _ _ => rfl, ← sum_map_eq_countP fun _ _ => rfl,
    ← List.sum_map_add]
  refine congrArg List.sum (List.map_congr_left fun handler hmem => ?_)
  obtain ⟨index, hhandler⟩ := List.mem_iff_getElem?.mp hmem
  have hsteps := (gatewayAfter_coherent decode config redisReachable actions).steps index handler
    hhandler
  rw [connections_of_steps hsteps]
  cases hdropped : handler.dropped with
  | true =>
      obtain ⟨op, next, hrest, hawaits⟩ := Pool.awaits_of_dropped _ _ actions hhandler hdropped
      rw [hrest] at hsteps
      have hstarted := history_ne_nil_of_awaits hsteps hawaits
      simp [inFlight, hdropped, hrest, isDone, hstarted]
  | false =>
      simp only [inFlight, hdropped]
      cases handler.history.isEmpty with
      | true => simp
      | false =>
          cases handler.rest.isDone with
          | true => simp
          | false => simp

end Run

/-- **The gauge of active connections.**  After every run of the gateway, the gauge is the
number of handlers that have started and have neither returned nor been dropped, if and
only if no action of the run has dropped a waiting handler. -/
theorem activeConnections_eq_inFlight_iff (decode : TokenDecoder) (config : GatewayConfig)
    (redisReachable : Bool) (actions : List GatewayAction) :
    (gatewayAfter decode config redisReachable actions).state.metrics.activeConnections =
        inFlightCount (gatewayAfter decode config redisReachable actions) ↔
      ∀ before action rest, actions = before ++ action :: rest →
        ¬ (gatewayAfter decode config redisReachable before).Drops
          (server decode (.build config redisReachable)) action := by
  have hdropped : (gatewayAfter decode config redisReachable actions).threads.countP
      Thread.dropped = 0 ↔ ¬ (gatewayAfter decode config redisReachable actions).HasDropped := by
    rw [List.countP_eq_zero]
    constructor
    · rintro hnone ⟨index, handler, hhandler, hdropped⟩
      exact hnone handler (List.mem_of_getElem? hhandler) hdropped
    · intro hnone handler hmem hdropped
      obtain ⟨index, hhandler⟩ := List.mem_iff_getElem?.mp hmem
      exact hnone ⟨index, handler, hhandler, hdropped⟩
  have hruns := Pool.hasDropped_after (server decode (.build config redisReachable))
    World.initial actions
  have hgauge := activeConnections_eq decode config redisReachable actions
  constructor
  · intro heq before action rest hactions hdrops
    have hzero := hdropped.mp (by omega)
    exact hzero (hruns.mpr ⟨before, action, rest, hactions, hdrops⟩)
  · intro hnone
    have hzero := hdropped.mpr fun hhas => by
      obtain ⟨before, action, rest, hactions, hdrops⟩ := hruns.mp hhas
      exact hnone before action rest hactions hdrops
    omega

/-- A client goes away while its request waits for the upstream. -/
def abandonedRun : List GatewayAction := echoRun.dropLast.dropLast ++ [.cancel 0]

def abandonedPool : GatewayPool :=
  gatewayAfter noTokens { routes := [echoRoute] } false abandonedRun

/-- Nothing is in flight any more, and the gauge stays at one. -/
theorem abandoned_request_stays_counted :
    inFlightCount abandonedPool = 0 ∧ abandonedPool.state.metrics.activeConnections = 1 ∧
      abandonedPool.state.metrics.activeConnections ≠ inFlightCount abandonedPool := by
  have hcount : inFlightCount abandonedPool = 0 := rfl
  have hgauge : abandonedPool.state.metrics.activeConnections = 1 := rfl
  refine ⟨hcount, hgauge, ?_⟩
  rw [hcount, hgauge]
  decide

end Gateway
end ApiGateway
