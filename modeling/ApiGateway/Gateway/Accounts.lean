import ApiGateway.Gateway.AttemptLoop
import ApiGateway.Gateway.RateStage
import ApiGateway.Library.Ledger
import Mathlib.Algebra.BigOperators.Ring.Finset

/-!
# The counters and what they count

Besides the request counter, the handlers count what they run into: a policy that refuses, a
limiter that refuses, a cache that has the answer or has not, a call of an upstream that
fails.  Each is counted right after it has happened, before the handler waits again.

So in every state of every run, a counter shows the number of times that its cause has
occurred, but for the handlers that are just about to count; when all handlers have ended or
wait, it is exact.  A handler that is dropped while it waits has counted all it had to
count.  There is one exception: the Redis limiter waits twice more after it has learned
the count, and a refusal is lost when its handler is dropped there.
-/

namespace ApiGateway
namespace Gateway

open Library Core Program

/-! ## What is due and what is booked -/

/-- A call of an upstream counts as failed when there is no response or a server error. -/
def failedCall : SendResult → Bool
  | .ok resp => resp.status.isServerError
  | .error _ => true

/-- The limiter decides on the low 32 bits of the count that Redis returns. -/
def overLimit (rl : RateLimitConfig) (count : Int) : Bool :=
  !decide (UInt32.ofNat (max count 0).toNat ≤ rl.limit)

/-- The counter that an event calls for, on a route with the given name. -/
def dueOn (decode : TokenDecoder) (route : RouteConfig) (name : String) (headers : HeaderMap) :
    Event effects → Option Counter
  | ⟨.systemTime, clock⟩ =>
      match authorize decode clock route.auth headers with
      | .ok _ => none
      | .error _ => some (.authRejections name)
  | ⟨.windowCheck _ _ _ _, decision⟩ =>
      if decision.allowed then none else some (.rateLimitRejections name)
  | ⟨.redisIncr _, some count⟩ =>
      if route.rateLimit.any (overLimit · count) then some (.rateLimitRejections name) else none
  | ⟨.cacheGet _ _, some _⟩ => some (.cacheHits name)
  | ⟨.cacheGet _ _, none⟩ => some (.cacheMisses name)
  | ⟨.send _ _, result⟩ => if failedCall result then some (.upstreamErrors name) else none
  | _ => none

/-- The counter that an event increments; the request counter is not of this kind. -/
def bookedBy : Event effects → Option Counter
  | ⟨.inc (.requests _ _ _), _⟩ => none
  | ⟨.inc counter, _⟩ => some counter
  | _ => none

/-- The account of a request: it is kept under the name of its route. -/
def Incoming.ledger (decode : TokenDecoder) (config : GatewayConfig) (incoming : Incoming) :
    Ledger effects Counter where
  due event := (incoming.routeOf config).bind fun route =>
    dueOn decode route route.name incoming.request.headers event
  booked := bookedBy

/-- The operations at which a handler waits with nothing left to count. -/
def Op.rests : Op → Bool
  | .windowCheck _ _ _ _ | .redisIncr _ => true
  | .readRequestBody | .send _ _ | .readResponseBody => true
  | _ => false

/-- The operations that neither call for a counter nor increment one, apart from the request
counter. -/
def Op.IsPlainStep : Op → Prop
  | .systemTime | .windowCheck _ _ _ _ | .redisIncr _ | .cacheGet _ _ | .send _ _ => False
  | .inc (.requests _ _ _) => True
  | .inc _ => False
  | _ => True

theorem due_of_isPlainStep {op : Op} (h : op.IsPlainStep) (decode : TokenDecoder)
    (route : RouteConfig) (name : String) (headers : HeaderMap) (answer : op.Res) :
    dueOn decode route name headers ⟨op, answer⟩ = none := by
  cases op with
  | systemTime | windowCheck _ _ _ _ | redisIncr _ | cacheGet _ _ | send _ _ => cases h
  | _ => rfl

theorem booked_of_isPlainStep {op : Op} (h : op.IsPlainStep) (answer : op.Res) :
    bookedBy ⟨op, answer⟩ = none := by
  cases op with
  | inc counter =>
      cases counter with
      | requests _ _ _ => rfl
      | _ => cases h
  | _ => rfl

theorem isPlainStep_of_isPickCall {id : RouteId} {op : Op} (h : Balancer.IsPickCall id op) :
    op.IsPlainStep := by
  cases op with
  | rrFetchAdd _ | isHealthy _ | allowAt _ _ | active _ | guardNew _ | instantNow => trivial
  | _ => cases h

theorem isPlainStep_of_isOpening {op : Op} (h : IsOpening op) : op.IsPlainStep := by
  rcases h with rfl | rfl | rfl
  · trivial
  · trivial
  · trivial

namespace Exchange

variable (decode : TokenDecoder) (exchange : Exchange)

/-- The account of an exchange. -/
def ledger : Ledger effects Counter where
  due := dueOn decode exchange.runtime.config exchange.routeName exchange.headers
  booked := bookedBy

/-- Every call is prompt, and nothing is owed when the program returns. -/
abbrev Accounts {α : Type} (history : List (Event effects)) (program : GatewayProgram α) : Prop :=
  program.Conforms ((exchange.ledger decode).Prompt Op.rests)
    (fun later _ => (exchange.ledger decode).Owes later []) history

variable {decode exchange} {history : List (Event effects)}

theorem quiet_of_isPlainStep {op : Op} (h : op.IsPlainStep) : (exchange.ledger decode).Quiet op :=
  fun answer => ⟨due_of_isPlainStep h _ _ _ _ answer, booked_of_isPlainStep h answer⟩

/-- A program of plain steps leaves the account as it is. -/
theorem accounts_of_isPlainStep {α : Type} {program : GatewayProgram α}
    (hmakes : program.Makes fun op : Op => op.IsPlainStep)
    (howes : (exchange.ledger decode).Owes history []) :
    exchange.Accounts decode history program :=
  Ledger.conforms_of_quiet (Makes.mono hmakes fun _ hop => quiet_of_isPlainStep hop) howes

theorem record_accounts (status : StatusCode) (howes : (exchange.ledger decode).Owes history []) :
    exchange.Accounts decode history (exchange.record status) :=
  accounts_of_isPlainStep (makes_perform trivial fun _ => ⟨trivial, fun _ => trivial⟩) howes

/-! ## The stages before the attempts -/

theorem authenticate_accounts (howes : (exchange.ledger decode).Owes history []) :
    exchange.Accounts decode history (exchange.authenticate decode) := by
  refine Ledger.conforms_due_call howes (fun _ => rfl) fun clock howes => ?_
  simp only [ledger, dueOn] at howes
  split
  · rename_i haccepted
    rw [haccepted] at howes
    exact conforms_done howes
  · rename_i reason hrefused
    rw [hrefused] at howes
    refine Ledger.conforms_book_call howes (fun _ => rfl) (fun _ => rfl) rfl fun _ howes => ?_
    exact conforms_bind (record_accounts _ howes) fun _ _ howes => conforms_done howes

/-- What a check of the limiter leaves to count. -/
def limitDue (name : String) (decision : RateDecision) : List Counter :=
  if decision.allowed then [] else [.rateLimitRejections name]

theorem due_windowCheck (key : String) (limit : UInt32) (window : Duration) (now : Instant)
    (decision : RateDecision) :
    ((exchange.ledger decode).due ⟨.windowCheck key limit window now, decision⟩).toList =
      limitDue exchange.routeName decision := by
  simp only [ledger, dueOn, limitDue]
  split
  · rfl
  · rfl

theorem due_redisIncr {rl : RateLimitConfig}
    (hlimit : exchange.runtime.config.rateLimit = some rl) (key : String) (count : Int)
    (resetSecs : UInt64) :
    ((exchange.ledger decode).due ⟨.redisIncr key, some count⟩).toList =
      limitDue exchange.routeName
        (decision rl.limit (UInt32.ofNat (max count 0).toNat) resetSecs) := by
  simp only [ledger, dueOn, limitDue, hlimit, Option.any_some, overLimit, decision]
  by_cases hallowed : UInt32.ofNat (max count 0).toNat ≤ rl.limit
  · simp [hallowed]
  · simp [hallowed]

theorem length_limitDue (name : String) (decision : RateDecision) :
    (limitDue name decision).length ≤ 1 := by
  unfold limitDue
  split
  · exact Nat.zero_le _
  · exact Nat.le_refl _

theorem checkLimit_accounts {rl : RateLimitConfig}
    (hlimit : exchange.runtime.config.rateLimit = some rl) (limiter : RateLimiter) (key : String)
    (window : Duration) (howes : (exchange.ledger decode).Owes history []) :
    (checkLimit limiter key rl.limit window).Conforms ((exchange.ledger decode).Prompt Op.rests)
      (fun later decision => (exchange.ledger decode).Owes later
        (limitDue exchange.routeName decision)) history := by
  cases limiter with
  | inMemory =>
      refine Ledger.conforms_quiet_call howes (Nat.zero_le _) (quiet_of_isPlainStep trivial)
        nofun fun now howes => ?_
      refine Ledger.conforms_due_call howes (fun _ => rfl) fun decision howes => conforms_done ?_
      rw [due_windowCheck] at howes
      exact howes
  | redis =>
      unfold checkLimit RedisLimiter.check
      refine Ledger.conforms_due_call howes (fun _ => rfl) fun count howes => ?_
      cases count with
      | none => exact conforms_done howes
      | some count =>
          -- The refusal is due from here on, whatever the expiry and the time to live are.
          rw [due_redisIncr hlimit ("gw:rl:" ++ key) count 0] at howes
          simp only
          split
          · refine Ledger.conforms_quiet_call howes (length_limitDue _ _)
              (quiet_of_isPlainStep trivial) nofun fun _ howes => ?_
            refine Ledger.conforms_quiet_call howes (length_limitDue _ _)
              (quiet_of_isPlainStep trivial) nofun fun ttl howes => conforms_done ?_
            exact howes
          · refine Ledger.conforms_quiet_call howes (length_limitDue _ _)
              (quiet_of_isPlainStep trivial) nofun fun ttl howes => conforms_done ?_
            exact howes

theorem limitRate_accounts (howes : (exchange.ledger decode).Owes history []) :
    exchange.Accounts decode history exchange.limitRate := by
  unfold limitRate
  split
  · exact conforms_done howes
  · rename_i rl hlimit
    refine conforms_bind (checkLimit_accounts hlimit _ _ _ howes) fun later decision howes => ?_
    unfold limitDue at howes
    split
    · rename_i hrefused
      rw [if_neg hrefused] at howes
      refine Ledger.conforms_book_call howes (fun _ => rfl) (fun _ => rfl) rfl fun _ howes => ?_
      exact conforms_bind (record_accounts _ howes) fun _ _ howes => conforms_done howes
    · rename_i hallowed
      rw [if_pos (not_not.mp hallowed)] at howes
      exact conforms_done howes

theorem lookupCache_accounts (howes : (exchange.ledger decode).Owes history []) :
    exchange.Accounts decode history exchange.lookupCache := by
  unfold lookupCache
  split
  · exact conforms_done howes
  · refine Ledger.conforms_due_call howes (fun _ => rfl) fun found howes => ?_
    cases found with
    | some hit =>
        refine Ledger.conforms_book_call howes (fun _ => rfl) (fun _ => rfl) rfl fun _ howes => ?_
        exact conforms_bind (record_accounts _ howes) fun _ _ howes => conforms_done howes
    | none =>
        refine Ledger.conforms_book_call howes (fun _ => rfl) (fun _ => rfl) rfl fun _ howes => ?_
        exact conforms_done howes

/-! ## The attempts -/

/-- What the result of a call leaves to count. -/
def callDue (name : String) (result : SendResult) : List Counter :=
  if failedCall result then [.upstreamErrors name] else []

theorem length_callDue (name : String) (result : SendResult) :
    (callDue name result).length ≤ 1 := by
  unfold callDue
  split
  · exact Nat.le_refl _
  · exact Nat.zero_le _

theorem finishResponse_isPlainStep (exchange : Exchange) (resp : UpstreamResponse) :
    (exchange.finishResponse resp).Makes fun op : Op => op.IsPlainStep := by
  refine makes_bind (makes_perform trivial fun _ => ⟨trivial, fun _ => trivial⟩) fun _ _ _ => ?_
  split
  · refine makes_perform trivial fun _ => ?_
    split
    · trivial
    · split
      · exact makes_perform trivial fun _ => trivial
      · trivial
  · trivial

theorem finishResponse_accounts (resp : UpstreamResponse)
    (howes : (exchange.ledger decode).Owes history []) :
    exchange.Accounts decode history (exchange.finishResponse resp) :=
  accounts_of_isPlainStep (exchange.finishResponse_isPlainStep resp) howes

/-- A failure is counted before the response is read or another upstream is tried. -/
theorem settle_accounts (attempt index : Nat) (upstream : Upstream) (result : SendResult)
    (howes : (exchange.ledger decode).Owes history (callDue exchange.routeName result)) :
    exchange.Accounts decode history (exchange.settle attempt index upstream result) := by
  unfold settle
  split
  · rename_i resp
    simp only
    split
    · rename_i hfailed
      have hdue : callDue exchange.routeName (.ok resp) = [.upstreamErrors exchange.routeName] :=
        if_pos hfailed
      rw [hdue] at howes
      refine Ledger.conforms_quiet_call howes (Nat.le_refl _) (quiet_of_isPlainStep trivial) nofun
        fun _ howes => Ledger.conforms_quiet_call howes (Nat.le_refl _)
          (quiet_of_isPlainStep trivial) nofun fun _ howes => ?_
      refine Ledger.conforms_book_call howes (fun _ => rfl) (fun _ => rfl) rfl fun _ howes => ?_
      split
      · exact conforms_done howes
      · exact conforms_bind (finishResponse_accounts resp howes) fun _ _ howes =>
          conforms_done howes
    · rename_i hfailed
      have hdue : callDue exchange.routeName (.ok resp) = [] := if_neg hfailed
      rw [hdue] at howes
      refine Ledger.conforms_quiet_call howes (Nat.zero_le _) (quiet_of_isPlainStep trivial) nofun
        fun _ howes => ?_
      exact conforms_bind (finishResponse_accounts resp howes) fun _ _ howes => conforms_done howes
  · rename_i e
    have hdue : callDue exchange.routeName (.error e) = [.upstreamErrors exchange.routeName] := rfl
    rw [hdue] at howes
    refine Ledger.conforms_quiet_call howes (Nat.le_refl _) (quiet_of_isPlainStep trivial) nofun
      fun _ howes => Ledger.conforms_quiet_call howes (Nat.le_refl _)
        (quiet_of_isPlainStep trivial) nofun fun _ howes => ?_
    refine Ledger.conforms_book_call howes (fun _ => rfl) (fun _ => rfl) rfl fun _ howes => ?_
    split
    · exact conforms_done howes
    · exact conforms_bind (record_accounts _ howes) fun _ _ howes => conforms_done howes

theorem tryUpstream_accounts (bodyBytes : Bytes) (attempt index : Nat) (upstream : Upstream)
    (howes : (exchange.ledger decode).Owes history []) :
    exchange.Accounts decode history
      (exchange.tryUpstream bodyBytes attempt index upstream) := by
  refine Ledger.conforms_quiet_call howes (Nat.zero_le _) (quiet_of_isPlainStep trivial) nofun
    fun _ howes => Ledger.conforms_due_call howes (fun _ => rfl) fun result howes => ?_
  have hdue : ((exchange.ledger decode).due ⟨.send ⟨exchange.runtime.id, index⟩
      (exchange.outgoing upstream bodyBytes), result⟩).toList =
        callDue exchange.routeName result := by
    simp only [ledger, dueOn, callDue]
    split
    · rfl
    · rfl
  rw [hdue] at howes
  have hshort := length_callDue exchange.routeName result
  refine Ledger.conforms_quiet_call howes hshort (quiet_of_isPlainStep trivial) nofun
    fun _ howes => Ledger.conforms_quiet_call howes hshort (quiet_of_isPlainStep trivial) nofun
      fun _ howes => Ledger.conforms_quiet_call howes hshort (quiet_of_isPlainStep trivial) nofun
        fun _ howes => ?_
  refine conforms_bind (settle_accounts attempt index upstream result howes)
    fun _ settled howes => ?_
  exact Ledger.conforms_quiet_call howes (Nat.zero_le _) (quiet_of_isPlainStep trivial) nofun
    fun _ howes => conforms_done howes

theorem attemptLoop_accounts (bodyBytes : Bytes) (remaining attempt : Nat) (excluded : List Nat)
    (howes : (exchange.ledger decode).Owes history []) :
    exchange.Accounts decode history
      (exchange.attemptLoop bodyBytes remaining attempt excluded) := by
  induction remaining generalizing attempt excluded history with
  | zero => exact conforms_bind (record_accounts _ howes) fun _ _ howes => conforms_done howes
  | succ remaining ih =>
      refine conforms_bind (accounts_of_isPlainStep (Makes.mono (Balancer.pick_makes _ _ _)
        fun op hop => isPlainStep_of_isPickCall hop) howes) fun _ picked howes => ?_
      cases picked with
      | none =>
          exact conforms_bind (record_accounts _ howes) fun _ _ howes => conforms_done howes
      | some picked =>
          refine conforms_bind (tryUpstream_accounts bodyBytes attempt picked.1 picked.2 howes)
            fun _ settled howes => ?_
          cases settled with
          | none => exact ih (attempt + 1) (excluded ++ [picked.1]) howes
          | some response => exact conforms_done howes

theorem serve_accounts (howes : (exchange.ledger decode).Owes history []) :
    exchange.Accounts decode history (exchange.serve decode) := by
  refine conforms_bind (authenticate_accounts howes) fun _ rejection howes => ?_
  cases rejection with
  | some rejection => exact conforms_done howes
  | none =>
      refine conforms_bind (limitRate_accounts howes) fun _ rejection howes => ?_
      cases rejection with
      | some rejection => exact conforms_done howes
      | none =>
          refine conforms_bind (lookupCache_accounts howes) fun _ hit howes => ?_
          cases hit with
          | some hit => exact conforms_done howes
          | none =>
              refine Ledger.conforms_quiet_call howes (Nat.zero_le _)
                (quiet_of_isPlainStep trivial) (fun _ => rfl) fun _ howes => ?_
              split
              · exact conforms_bind (record_accounts _ howes) fun _ _ howes => conforms_done howes
              · exact attemptLoop_accounts _ _ _ _ howes

end Exchange

/-! ## The handler -/

theorem Incoming.quiet_of_isPlainStep {decode : TokenDecoder} {config : GatewayConfig}
    (incoming : Incoming) {op : Op} (h : op.IsPlainStep) :
    (incoming.ledger decode config).Quiet op := by
  intro answer
  refine ⟨?_, booked_of_isPlainStep h answer⟩
  cases hroute : incoming.routeOf config with
  | none => simp [Incoming.ledger, hroute]
  | some route => simp [Incoming.ledger, hroute, due_of_isPlainStep h]

/-- The account of a request is that of its exchange. -/
theorem ledger_of_matched {decode : TokenDecoder} {config : GatewayConfig} {incoming : Incoming}
    {route : RouteConfig} (hmatched : incoming.routeOf config = some route) (state : GatewayState)
    (id : RouteId) (correlation : String) (started : Instant) :
    incoming.ledger decode config =
      (Exchange.new state incoming route.name (.fromConfig id route) correlation started).ledger
        decode := by
  simp only [Incoming.ledger, hmatched, Option.bind_some]
  rfl

theorem handle_accounts (decode : TokenDecoder) {config : GatewayConfig} (hvalid : config.Valid)
    (redisReachable : Bool) (incoming : Incoming) :
    (handle decode (.build config redisReachable) incoming).Conforms
      ((incoming.ledger decode config).Prompt Op.rests)
      (fun later _ => (incoming.ledger decode config).Owes later []) [] := by
  refine Ledger.conforms_quiet_call Ledger.owes_nil (Nat.zero_le _)
    (incoming.quiet_of_isPlainStep trivial) nofun fun _ howes => ?_
  refine conforms_bind ?_ fun _ response howes => Ledger.conforms_quiet_call howes (Nat.zero_le _)
    (incoming.quiet_of_isPlainStep trivial) nofun fun _ howes => conforms_done howes
  refine Ledger.conforms_quiet_call howes (Nat.zero_le _) (incoming.quiet_of_isPlainStep trivial)
    nofun fun started howes => ?_
  refine conforms_bind (Ledger.conforms_of_quiet (Makes.mono (correlationId_makes _) fun op hop =>
    incoming.quiet_of_isPlainStep (isPlainStep_of_isOpening hop)) howes)
      fun later correlation howes => ?_
  split
  · exact Ledger.conforms_quiet_call howes (Nat.zero_le _) (incoming.quiet_of_isPlainStep trivial)
      nofun fun _ howes => conforms_done howes
  · rename_i route hmatched
    split
    · exact conforms_done howes
    · rename_i runtime hruntime
      obtain ⟨id, -, hroute⟩ := route_of_matchRoute redisReachable hvalid hmatched
      obtain rfl := Option.some.inj (hroute.symm.trans hruntime)
      have hledger : incoming.ledger decode config = _ :=
        ledger_of_matched hmatched (.build config redisReachable) id correlation started
      rw [hledger] at howes ⊢
      exact Exchange.serve_accounts howes

/-! ## In every run -/

/-- The request counter is left out: its label is not known when its cause occurs. -/
def Counter.IsCause : Counter → Prop
  | .requests _ _ _ => False
  | _ => True

/-- An operation moves a counter exactly when it books it. -/
theorem counters_answer (input : Input) (world : World) (op : Op) {counter : Counter}
    (hcounter : counter.IsCause) :
    (World.answer input world op).2.metrics.counters counter =
      world.metrics.counters counter +
        (bookedBy ⟨op, (World.answer input world op).1⟩).toList.count counter := by
  cases op with
  | inc incremented =>
      have hafter : (World.answer input world (.inc incremented)).2.metrics.counters counter =
          if counter = incremented then world.metrics.counters incremented + 1
          else world.metrics.counters counter :=
        Function.update_apply ..
      rw [hafter]
      by_cases heq : counter = incremented
      · subst heq
        cases counter with
        | requests _ _ _ => cases hcounter
        | _ => simp [bookedBy]
      · cases incremented with
        | requests _ _ _ => simp [bookedBy, heq]
        | _ => simp [bookedBy, heq, Ne.symm heq]
  | _ => rfl

/-- A call moves a counter as it moves the bookings of its handler. -/
theorem counters_move_with_bookings (decode : TokenDecoder) (config : GatewayConfig)
    {counter : Counter} (hcounter : counter.IsCause) (incoming : Incoming)
    (history : List (Event effects)) (input : Input) (world : World) (op : Op) :
    ((World.answer input world op).2.metrics.counters counter : Int) +
        (((incoming.ledger decode config).bookings history).count counter : Int) =
      (world.metrics.counters counter : Int) + (((incoming.ledger decode config).bookings
        (history ++ [⟨op, (World.answer input world op).1⟩])).count counter : Int) := by
  have hbookings : (incoming.ledger decode config).bookings
      (history ++ [⟨op, (World.answer input world op).1⟩]) =
      (incoming.ledger decode config).bookings history ++
        (bookedBy ⟨op, (World.answer input world op).1⟩).toList := by
    simp only [Ledger.bookings, List.filterMap_append]
    cases hbooked : bookedBy ⟨op, (World.answer input world op).1⟩ with
    | none => simp [Incoming.ledger, hbooked]
    | some _ => simp [Incoming.ledger, hbooked]
  rw [hbookings, List.count_append, counters_answer input world op hcounter]
  omega

/-- A counter is the sum of what the handlers have booked. -/
def counterTally (decode : TokenDecoder) (config : GatewayConfig) (state : GatewayState)
    {counter : Counter} (hcounter : counter.IsCause) : Tally (server decode state) where
  quantity world := world.metrics.counters counter
  share thread := ((thread.request.ledger decode config).bookings thread.history).count counter
  arrive _ := rfl
  call thread op _ input world _ _ :=
    counters_move_with_bookings decode config hcounter thread.request thread.history input world op
  drop thread op next world _ _ := by
    have hmetrics : (dropHandler thread.history world).metrics = world.metrics := by
      unfold dropHandler
      split
      · rfl
      · rfl
    show ((dropHandler thread.history world).metrics.counters counter : Int) + _ = _
    rw [hmetrics]
  disturb _ _ := rfl

theorem counters_eq_timesBooked (decode : TokenDecoder) (config : GatewayConfig)
    (redisReachable : Bool) (actions : List GatewayAction) {counter : Counter}
    (hcounter : counter.IsCause) :
    (gatewayAfter decode config redisReachable actions).state.metrics.counters counter =
      Ledger.timesBooked (Incoming.ledger decode config) counter
        (gatewayAfter decode config redisReachable actions).threads := by
  have hinit : (counterTally decode config (.build config redisReachable) hcounter).quantity
      World.initial = 0 := rfl
  have hsum := Pool.quantity_after
    (counterTally decode config (.build config redisReachable) hcounter) hinit actions
  have hcast : Ledger.timesBooked (Incoming.ledger decode config) counter
      (gatewayAfter decode config redisReachable actions).threads = ((gatewayAfter decode config
        redisReachable actions).threads.map fun thread =>
          (((thread.request.ledger decode config).bookings thread.history).count counter :
            Int)).sum := by
    rw [Ledger.timesBooked, Nat.cast_list_sum, List.map_map]
    rfl
  exact Int.ofNat_inj.mp (hsum.trans hcast.symm)

/-- A request whose two upstreams answer 500, up to its answer. -/
def failingRun : List GatewayAction :=
  .arrive (pairIncoming .get) :: List.replicate 40 (.advance 0 failingInput)

end Gateway
end ApiGateway
