import ApiGateway.Gateway.Admission
import ApiGateway.Gateway.ConnectionGauge
import ApiGateway.Gateway.Answers

/-!
# Active counts and the load of an upstream

A handler holds the guard of at most one upstream, takes it when it has picked the
upstream and drops it at the end of the round, or when the handler itself is dropped.  So
the active count of an upstream is the number of handlers in a round with it.

The body of a response that is relayed as it arrives outlives the handler.  `RelayPool`
adds these bodies to the running gateway: one is streamed from the moment the handler
returns until it is over, that is sent in full, broken off, or abandoned by the client.
The guard is gone by then, so a body that is being streamed is not counted.
-/

namespace ApiGateway
namespace Gateway

open Library Core Program

/-! ## The guards of a handler -/

/-- The guard that is held after the calls of a trace. -/
def guardAfter (held : Option UpstreamId) (trace : List (Event effects)) : Option UpstreamId :=
  trace.foldl
    (fun held event =>
      match event.1 with
      | .guardNew id => some id
      | .guardDrop _ => none
      | _ => held) held

theorem liveGuard_append (history trace : List (Event effects)) :
    liveGuard (history ++ trace) = guardAfter (liveGuard history) trace :=
  List.foldl_append

/-- The call neither takes nor drops a guard. -/
def LeavesGuards : Op → Prop
  | .guardNew _ | .guardDrop _ => False
  | _ => True

theorem leavesGuards_of_kind {op : Op} (h : op.kind ∉ [.pick, .guardDrop]) : LeavesGuards op := by
  cases op with
  | guardNew _ | guardDrop _ => simp at h
  | _ => trivial

theorem leavesGuards_of_makesKinds {α : Type} {kinds : List OpKind} {program : GatewayProgram α}
    (h : MakesKinds kinds program) (hkinds : ∀ kind ∈ kinds, kind ∉ [.pick, .guardDrop]) :
    program.Makes LeavesGuards :=
  Makes.mono h fun op hop => leavesGuards_of_kind (hkinds op.kind hop)

theorem guardAfter_of_leaves {trace : List (Event effects)}
    (h : ∀ event ∈ trace, LeavesGuards event.1) (held : Option UpstreamId) :
    guardAfter held trace = held := by
  induction trace generalizing held with
  | nil => rfl
  | cons event trace ih =>
      have htail := ih fun other hother => h other (List.mem_cons_of_mem _ hother)
      obtain ⟨op, answer⟩ := event
      have hop := h _ List.mem_cons_self
      cases op with
      | guardNew _ | guardDrop _ => cases hop
      | _ => exact htail held

/-- A guard is taken when none is held, and the guard that is dropped is the one held. -/
def GuardsInTurn (history : List (Event effects)) : Op → Prop
  | .guardNew _ => liveGuard history = none
  | .guardDrop id => liveGuard history = some id
  | _ => True

theorem guardsInTurn_of_leaves {history : List (Event effects)} {op : Op} (h : LeavesGuards op) :
    GuardsInTurn history op := by
  cases op with
  | guardNew _ | guardDrop _ => cases h
  | _ => trivial

/-- A program that takes and drops no guard leaves the one that is held. -/
theorem conforms_of_leaves {α : Type} {program : GatewayProgram α}
    (h : program.Makes LeavesGuards) {history : List (Event effects)} {held : Option UpstreamId}
    (hheld : liveGuard history = held) :
    program.Conforms GuardsInTurn (fun later _ => liveGuard later = held) history := by
  refine ⟨Makes.guarded h fun _ _ hop => guardsInTurn_of_leaves hop, fun trace value hreturns => ?_⟩
  show liveGuard (history ++ trace) = held
  rw [liveGuard_append, hheld]
  exact guardAfter_of_leaves (fun event hevent => Makes.of_mem h hreturns hevent) _

/-- So does one such call. -/
theorem conforms_call_of_leaves {α : Type} {op : Op} {next : op.Res → GatewayProgram α}
    {post : List (Event effects) → α → Prop} {history : List (Event effects)}
    {held : Option UpstreamId} (hheld : liveGuard history = held) (h : LeavesGuards op)
    (hnext : ∀ answer later, liveGuard later = held →
      (next answer).Conforms GuardsInTurn post later) :
    (perform op >>= next).Conforms GuardsInTurn post history := by
  refine conforms_perform (guardsInTurn_of_leaves h) fun answer => hnext answer _ ?_
  rw [liveGuard_append, hheld]
  refine guardAfter_of_leaves (fun event hevent => ?_) _
  rw [List.mem_singleton.mp hevent]
  exact h

theorem pickIndex_leavesGuards (balancer : Balancer) (id : RouteId) (exclude : List Nat) :
    (balancer.pickIndex id exclude).Makes LeavesGuards := by
  refine (Balancer.pickIndex_makes balancer id exclude).mono fun op hop => ?_
  cases op with
  | guardNew _ | guardDrop _ => cases hop
  | _ => trivial

/-- A pick that finds an upstream leaves its guard behind. -/
theorem pick_conforms (balancer : Balancer) (id : RouteId) (exclude : List Nat)
    {history : List (Event effects)} (hnone : liveGuard history = none) :
    (balancer.pick id exclude).Conforms GuardsInTurn
      (fun later picked => liveGuard later = picked.map fun found => ⟨id, found.1⟩) history := by
  refine conforms_bind (conforms_of_leaves (pickIndex_leavesGuards balancer id exclude) hnone)
    fun later choice hlater => ?_
  cases choice with
  | none => exact conforms_done hlater
  | some index =>
      refine conforms_perform hlater fun _ => conforms_done ?_
      rw [liveGuard_append]
      rfl

namespace Exchange

variable (exchange : Exchange)

theorem record_leavesGuards (status : StatusCode) :
    (exchange.record status).Makes LeavesGuards :=
  leavesGuards_of_makesKinds (exchange.record_makesKinds status) (by decide)

/-- A round drops the guard that it was entered with. -/
theorem tryUpstream_conforms (bodyBytes : Bytes) (attempt index : Nat) (upstream : Upstream)
    {history : List (Event effects)}
    (hheld : liveGuard history = some ⟨exchange.runtime.id, index⟩) :
    (exchange.tryUpstream bodyBytes attempt index upstream).Conforms GuardsInTurn
      (fun later _ => liveGuard later = none) history := by
  refine conforms_call_of_leaves hheld trivial fun _ _ hstarted => ?_
  refine conforms_call_of_leaves hstarted trivial fun result _ hsent => ?_
  refine conforms_call_of_leaves hsent trivial fun _ _ hobserved => ?_
  refine conforms_call_of_leaves hobserved trivial fun _ _ hread => ?_
  refine conforms_call_of_leaves hread trivial fun _ _ hshown => ?_
  have hsettle : (exchange.settle attempt index upstream result).Makes LeavesGuards :=
    leavesGuards_of_makesKinds (exchange.settle_makesKinds attempt index upstream result)
      (by decide)
  refine conforms_bind (conforms_of_leaves hsettle hshown) fun later settled hlater => ?_
  refine conforms_perform hlater fun _ => conforms_done ?_
  rw [liveGuard_append]
  rfl

/-- The attempt loop is entered and left without a guard. -/
theorem attemptLoop_conforms (bodyBytes : Bytes) (remaining attempt : Nat) (excluded : List Nat)
    {history : List (Event effects)} (hnone : liveGuard history = none) :
    (exchange.attemptLoop bodyBytes remaining attempt excluded).Conforms GuardsInTurn
      (fun later _ => liveGuard later = none) history := by
  induction remaining generalizing history attempt excluded with
  | zero =>
      exact conforms_bind (conforms_of_leaves (exchange.record_leavesGuards _) hnone)
        fun _ _ hlater => conforms_done hlater
  | succ remaining ih =>
      refine conforms_bind (pick_conforms _ _ excluded hnone) fun later picked hpicked => ?_
      cases picked with
      | none =>
          exact conforms_bind (conforms_of_leaves (exchange.record_leavesGuards _) hpicked)
            fun _ _ hlater => conforms_done hlater
      | some picked =>
          refine conforms_bind (exchange.tryUpstream_conforms bodyBytes attempt picked.1 picked.2
            hpicked) fun later settled hlater => ?_
          cases settled with
          | none => exact ih _ _ hlater
          | some response => exact conforms_done hlater

theorem serve_conforms (decode : TokenDecoder) {history : List (Event effects)}
    (hnone : liveGuard history = none) :
    (exchange.serve decode).Conforms GuardsInTurn
      (fun later _ => liveGuard later = none) history := by
  refine conforms_bind (conforms_of_leaves (leavesGuards_of_makesKinds
    (exchange.authenticate_makesKinds decode) (by decide)) hnone) fun _ rejection hauth => ?_
  cases rejection with
  | some rejection => exact conforms_done hauth
  | none =>
      refine conforms_bind (conforms_of_leaves (leavesGuards_of_makesKinds
        exchange.limitRate_makesKinds (by decide)) hauth) fun _ rejection hlimited => ?_
      cases rejection with
      | some rejection => exact conforms_done hlimited
      | none =>
          refine conforms_bind (conforms_of_leaves (leavesGuards_of_makesKinds
            exchange.lookupCache_makesKinds (by decide)) hlimited) fun _ hit hlooked => ?_
          cases hit with
          | some hit => exact conforms_done hlooked
          | none =>
              refine conforms_call_of_leaves hlooked trivial fun _ _ hread => ?_
              split
              · exact conforms_bind (conforms_of_leaves (exchange.record_leavesGuards _) hread)
                  fun _ _ hlater => conforms_done hlater
              · exact exchange.attemptLoop_conforms _ _ _ _ hread

end Exchange

/-- A handler takes and drops guards in turn, and returns without one. -/
theorem handle_conforms (decode : TokenDecoder) (state : GatewayState) (incoming : Incoming) :
    (handle decode state incoming).Conforms GuardsInTurn
      (fun later _ => liveGuard later = none) [] := by
  refine conforms_call_of_leaves rfl trivial fun _ _ hcounted => ?_
  refine conforms_bind (?_ : (routeAndProxy decode state incoming).Conforms GuardsInTurn
    (fun later _ => liveGuard later = none) _) fun later response hlater => ?_
  · refine conforms_call_of_leaves hcounted trivial fun _ _ hstarted => ?_
    have hcorrelation : (correlationId incoming.request).Makes LeavesGuards :=
      leavesGuards_of_makesKinds (correlationId_makesKinds incoming.request) (by decide)
    refine conforms_bind (conforms_of_leaves hcorrelation hstarted)
      fun later correlation hlater => ?_
    split
    · exact conforms_call_of_leaves hlater trivial fun _ _ hcounted => conforms_done hcounted
    · split
      · exact conforms_done hlater
      · exact Exchange.serve_conforms _ decode hlater
  · exact conforms_call_of_leaves hlater trivial fun _ _ hclosed => conforms_done hclosed

/-! ## The active counts -/

/-- The handler is in a round with the upstream. -/
def engagedWith (upstream : UpstreamId) (handler : Handler) : Bool :=
  !handler.dropped && liveGuard handler.history == some upstream

/-- A call changes the count of an upstream as it changes the guard that is held. -/
theorem active_cellAfter {history : List (Event effects)} {op : Op}
    (h : GuardsInTurn history op) (answer : op.Res) (upstream : UpstreamId)
    (cell : UpstreamCell) :
    (World.cellAfter upstream cell op).active +
        (if liveGuard history = some upstream then 1 else 0) =
      cell.active +
        if liveGuard (history ++ [⟨op, answer⟩]) = some upstream then 1 else 0 := by
  rw [liveGuard_append]
  cases op with
  | guardNew id =>
      have hnone : liveGuard history = none := h
      have hafter : guardAfter (liveGuard history) [⟨.guardNew id, answer⟩] = some id := rfl
      rw [hnone] at hafter ⊢
      rw [hafter]
      by_cases hid : id = upstream
      · simp [World.cellAfter, hid]
      · simp [World.cellAfter, hid]
  | guardDrop id =>
      have hheld : liveGuard history = some id := h
      have hafter : guardAfter (liveGuard history) [⟨.guardDrop id, answer⟩] = none := rfl
      rw [hheld] at hafter ⊢
      rw [hafter]
      by_cases hid : id = upstream
      · simp [World.cellAfter, hid]
      · simp [World.cellAfter, hid]
  | allowAt id _ | recordSuccess id | recordFailureAt id _ _ =>
      have hcell : ∀ cell' : UpstreamCell, cell'.active = cell.active →
          (if id = upstream then cell' else cell).active = cell.active := by
        intro cell' hactive
        split
        · exact hactive
        · rfl
      exact congrArg (· + _) (hcell _ rfl)
  | _ => rfl

theorem active_dropHandler (history : List (Event effects)) (world : World)
    (upstream : UpstreamId) :
    ((dropHandler history world).upstream upstream).active +
        (if liveGuard history = some upstream then 1 else 0) =
      (world.upstream upstream).active := by
  unfold dropHandler
  cases hheld : liveGuard history with
  | none => simp
  | some id =>
      have hcell := World.upstream_answer {} world (.guardDrop id) upstream
      have hworld : (World.answer {} world (.guardDrop id)).2 =
          (World.answerNow {} world (.guardDrop id)).2 := rfl
      rw [hworld] at hcell
      simp only [hcell, World.cellAfter]
      by_cases hid : id = upstream
      · simp [hid]
      · simp [hid]

/-- The active count of an upstream is the number of handlers in a round with it. -/
def activeTally (decode : TokenDecoder) (state : GatewayState) (upstream : UpstreamId) :
    Tally (server decode state) where
  quantity world := (world.upstream upstream).active
  share handler := if engagedWith upstream handler then 1 else 0
  arrive _ := rfl
  call handler op next input world hsteps hpending := by
    have hturn := (handle_conforms decode state handler.request).1.allowed_pending hsteps
      (World.answer input world op).1
    have hcell := World.upstream_answer input world op upstream
    have hcall := active_cellAfter hturn (World.answer input world op).1 upstream
      (world.upstream upstream)
    rw [← hcell] at hcall
    simp only [engagedWith, Thread.dropped_of_pending? hpending, Bool.not_false, Bool.true_and,
      beq_iff_eq]
    exact hcall
  drop handler op next world hpending _ := by
    have hdrop := active_dropHandler handler.history world upstream
    simp only [engagedWith, Thread.dropped_of_pending? hpending, Bool.not_false, Bool.true_and,
      beq_iff_eq, Bool.not_true, Bool.false_and, Bool.false_eq_true, if_false, Int.add_zero]
    exact hdrop
  disturb probe world := by
    show (World.upstream (world.setUpstream _ _) upstream).active = _
    rw [World.upstream_setUpstream]
    split
    · rename_i heq
      rw [← heq]
    · rfl

theorem active_eq_engaged (decode : TokenDecoder) (config : GatewayConfig)
    (redisReachable : Bool) (actions : List GatewayAction) (upstream : UpstreamId) :
    ((gatewayAfter decode config redisReachable actions).state.upstream upstream).active =
      (gatewayAfter decode config redisReachable actions).threads.countP
        (engagedWith upstream) := by
  rw [← sum_map_eq_countP fun _ _ => rfl]
  exact Pool.quantity_after (activeTally decode (.build config redisReachable) upstream) rfl actions

/-! ## Bodies that are relayed as they arrive -/

/-- The upstream whose response body a handler has returned to be relayed: the one it
attempted last. -/
def relaysFrom (handler : Handler) : Option UpstreamId :=
  match handler.rest with
  | .done response =>
      match response.body with
      | .streamed _ => (sends handler.history).getLast?.map Prod.fst
      | .buffered _ => none
  | .call _ _ => none

/-- The running gateway, and the requests whose relayed body is over. -/
structure RelayPool where
  gateway : GatewayPool
  ended : List Nat

inductive RelayAction where
  | gateway (action : GatewayAction)
  /-- The body relayed for a request has been sent in full, has broken off, or has been
  abandoned by the client. -/
  | bodyOver (index : Nat)

namespace RelayPool

def step (decode : TokenDecoder) (state : GatewayState) (relay : RelayPool) :
    RelayAction → RelayPool
  | .gateway action => { relay with gateway := relay.gateway.step (server decode state) action }
  | .bodyOver index =>
      match relay.gateway.threads[index]? with
      | some handler =>
          if (relaysFrom handler).isSome then { relay with ended := index :: relay.ended } else relay
      | none => relay

/-- The body returned for a request is being relayed from the upstream. -/
def streams (relay : RelayPool) (upstream : UpstreamId) (request : Handler × Nat) : Bool :=
  relaysFrom request.1 == some upstream && !relay.ended.contains request.2

/-- The request was picked for the upstream and its exchange with it is not over: it is in
a round with the upstream, or the body of its response is being relayed. -/
def exchanges (relay : RelayPool) (upstream : UpstreamId) (request : Handler × Nat) : Bool :=
  engagedWith upstream request.1 || relay.streams upstream request

/-- The number of requests whose exchange with the upstream is not over. -/
def load (relay : RelayPool) (upstream : UpstreamId) : Nat :=
  relay.gateway.threads.zipIdx.countP (relay.exchanges upstream)

def active (relay : RelayPool) (upstream : UpstreamId) : Int :=
  (relay.gateway.state.upstream upstream).active

end RelayPool

/-- The gateway and the relayed bodies after a run. -/
def relayAfter (decode : TokenDecoder) (config : GatewayConfig) (redisReachable : Bool)
    (actions : List RelayAction) : RelayPool :=
  actions.foldl (RelayPool.step decode (.build config redisReachable)) ⟨.initial .initial, []⟩

section Relay

variable (decode : TokenDecoder) (config : GatewayConfig) (redisReachable : Bool)

/-- Relaying bodies does not disturb the gateway. -/
theorem relayAfter_gateway (actions : List RelayAction) :
    ∃ own, (relayAfter decode config redisReachable actions).gateway =
      gatewayAfter decode config redisReachable own := by
  induction actions using List.reverseRecOn with
  | nil => exact ⟨[], rfl⟩
  | append_singleton actions last ih =>
      obtain ⟨own, hown⟩ := ih
      have hlast : relayAfter decode config redisReachable (actions ++ [last]) =
          (relayAfter decode config redisReachable actions).step decode
            (.build config redisReachable) last := List.foldl_append
      rw [hlast]
      cases last with
      | gateway action =>
          refine ⟨own ++ [action], ?_⟩
          have hsnoc := Pool.after_snoc (server decode (.build config redisReachable))
            World.initial own action
          unfold gatewayAfter at hown ⊢
          rw [hsnoc, ← hown]
          rfl
      | bodyOver index =>
          refine ⟨own, ?_⟩
          rw [← hown]
          simp only [RelayPool.step]
          split
          · split
            · rfl
            · rfl
          · rfl

/-- A handler that has returned is in no round any more. -/
theorem not_engaged_of_relays {own : List GatewayAction} {handler : Handler} {index : Nat}
    (hhandler : (gatewayAfter decode config redisReachable own).threads[index]? = some handler)
    {upstream : UpstreamId} (hengaged : engagedWith upstream handler = true) :
    relaysFrom handler = none := by
  have hsteps := (gatewayAfter_coherent decode config redisReachable own).steps index handler
    hhandler
  unfold relaysFrom
  cases hrest : handler.rest with
  | call op next => rfl
  | done response =>
      rw [hrest] at hsteps
      have hnone : liveGuard handler.history = none :=
        (handle_conforms decode _ handler.request).2 _ _ hsteps
      simp [engagedWith, hnone] at hengaged

/-- The requests in exchange with an upstream are those that are counted, and those whose
body is being relayed. -/
theorem load_eq (actions : List RelayAction) (upstream : UpstreamId) :
    ((relayAfter decode config redisReachable actions).load upstream : Int) =
      (relayAfter decode config redisReachable actions).active upstream +
        (relayAfter decode config redisReachable actions).gateway.threads.zipIdx.countP
          ((relayAfter decode config redisReachable actions).streams upstream) := by
  obtain ⟨own, hown⟩ := relayAfter_gateway decode config redisReachable actions
  generalize relayAfter decode config redisReachable actions = relay at hown ⊢
  have hdisjoint : ∀ request ∈ relay.gateway.threads.zipIdx,
      engagedWith upstream request.1 = true → relay.streams upstream request = false := by
    intro request hrequest hengaged
    have hhandler := List.mem_zipIdx_iff_getElem?.mp hrequest
    rw [hown] at hhandler
    have hnone := not_engaged_of_relays decode config redisReachable hhandler hengaged
    simp [RelayPool.streams, hnone]
  have hengaged : relay.gateway.threads.zipIdx.countP (fun request =>
      engagedWith upstream request.1) = relay.gateway.threads.countP (engagedWith upstream) := by
    conv_rhs => rw [← List.zipIdx_map_fst 0 relay.gateway.threads, List.countP_map]
    rfl
  have hactive := active_eq_engaged decode config redisReachable own upstream
  have hsplit := countP_or_of_disjoint hdisjoint
  unfold RelayPool.load RelayPool.exchanges RelayPool.active
  rw [hsplit, hengaged, hown, hactive, Int.natCast_add]

end Relay

/-- **Active counts and the load.**  After every run of the gateway, with responses relayed
to their clients at any pace, the active count of an upstream is not negative, and it is
the number of requests whose exchange with the upstream is not over if and only if no
response body from the upstream is being relayed at that moment. -/
theorem active_eq_load_iff (decode : TokenDecoder) (config : GatewayConfig)
    (redisReachable : Bool) (actions : List RelayAction) (upstream : UpstreamId) :
    0 ≤ (relayAfter decode config redisReachable actions).active upstream ∧
      ((relayAfter decode config redisReachable actions).active upstream =
          (relayAfter decode config redisReachable actions).load upstream ↔
        ∀ (index : Nat) (handler : Handler),
          (relayAfter decode config redisReachable actions).gateway.threads[index]? =
              some handler →
            (relayAfter decode config redisReachable actions).streams upstream
              (handler, index) = false) := by
  have hload := load_eq decode config redisReachable actions upstream
  obtain ⟨own, hown⟩ := relayAfter_gateway decode config redisReachable actions
  have hactive := active_eq_engaged decode config redisReachable own upstream
  constructor
  · unfold RelayPool.active
    rw [hown, hactive]
    exact Int.natCast_nonneg _
  · have hnone : (relayAfter decode config redisReachable actions).gateway.threads.zipIdx.countP
        ((relayAfter decode config redisReachable actions).streams upstream) = 0 ↔
        ∀ (index : Nat) (handler : Handler),
          (relayAfter decode config redisReachable actions).gateway.threads[index]? =
              some handler →
            (relayAfter decode config redisReachable actions).streams upstream
              (handler, index) = false := by
      rw [List.countP_eq_zero]
      constructor
      · intro hall index handler hhandler
        have := hall (handler, index) (List.mem_zipIdx_iff_getElem?.mpr hhandler)
        simpa using this
      · intro hall request hrequest
        have := hall request.2 request.1 (List.mem_zipIdx_iff_getElem?.mp hrequest)
        simpa using this
    rw [← hnone]
    constructor
    · intro heq
      omega
    · intro hzero
      omega

/-- One request whose upstream has answered; its body is being relayed. -/
def relayingRun : List RelayAction :=
  (.arrive echoIncoming :: List.replicate 21
    (.advance 0 { upstream := fun _ _ => .ok ⟨.ok, [], ⟨[], true⟩⟩ })).map .gateway

def relayingPool : RelayPool := relayAfter noTokens { routes := [echoRoute] } false relayingRun

/-- A body is being relayed from the upstream, and its active count is zero. -/
theorem relayed_body_is_not_counted :
    relayingPool.load ⟨0, 0⟩ = 1 ∧ relayingPool.active ⟨0, 0⟩ = 0 ∧
      relayingPool.active ⟨0, 0⟩ ≠ relayingPool.load ⟨0, 0⟩ := by
  have hload : relayingPool.load ⟨0, 0⟩ = 1 := rfl
  have hactive : relayingPool.active ⟨0, 0⟩ = 0 := rfl
  refine ⟨hload, hactive, ?_⟩
  rw [hload, hactive]
  decide

end Gateway
end ApiGateway
