import ApiGateway.Gateway.RateStage
import ApiGateway.Gateway.WindowLaw

/-!
# The limit per client address

With the scope `Ip` a request is counted under the address that `clientIp` selects: the
first one of `X-Forwarded-For` when there is one, and the address of the peer otherwise.
The header is trusted, as it has to be behind another proxy.  So the limit holds for each
selected address, and for a peer only as far as its requests do not name another one.

`LoggedWindows` ties the windows of a running gateway to its log: they are what the
in-memory limiter holds after the checks of the log, in the order of the log.
-/

namespace ApiGateway
namespace Gateway

open Library Core Program

/-! ## The checks of a run -/

/-- The check of the in-memory limiter that an entry of the log made. -/
def checkOf (entry : Nat × Event effects) : Option InMemoryLimiter.Check :=
  match entry.2.1 with
  | .windowCheck key limit window now => some ⟨key, limit, window, now⟩
  | _ => none

/-- The checks of the in-memory limiter, in the order in which they happened. -/
def checksOf (log : List (Nat × Event effects)) : List InMemoryLimiter.Check :=
  log.filterMap checkOf

/-- The call by which a request was checked, with its answer. -/
def checkEvent (check : InMemoryLimiter.Check) (decision : RateDecision) : Event effects :=
  ⟨.windowCheck check.key check.limit check.window check.now, decision⟩

/-- The windows hold what the checks of the log have left there. -/
def LoggedWindows (pool : GatewayPool) : Prop :=
  pool.state.windows = InMemoryLimiter.after (checksOf pool.log)

theorem checksOf_append (log more : List (Nat × Event effects)) :
    checksOf (log ++ more) = checksOf log ++ checksOf more :=
  List.filterMap_append

theorem checksOf_check (index : Nat) (check : InMemoryLimiter.Check) (decision : RateDecision)
    (rest : List (Nat × Event effects)) :
    checksOf ((index, checkEvent check decision) :: rest) = check :: checksOf rest := rfl

/-- An operation that is no check leaves the windows as they are. -/
theorem World.windows_answer {input : Input} {world : World} {op : Op} (index : Nat)
    (h : checkOf (index, ⟨op, (World.answer input world op).1⟩) = none) :
    (World.answer input world op).2.windows = world.windows := by
  cases op with
  | windowCheck key limit window now => cases h
  | _ => rfl

theorem dropHandler_windows (history : List (Event effects)) (world : World) :
    (dropHandler history world).windows = world.windows := by
  unfold dropHandler
  split
  · rfl
  · rfl

theorem loggedWindows_step (decode : TokenDecoder) (state : GatewayState) (pool : GatewayPool)
    (action : GatewayAction) (h : LoggedWindows pool) :
    LoggedWindows (pool.step (server decode state) action) := by
  rcases Pool.step_cases (server decode state) pool action with ⟨_, hpool⟩ |
    ⟨caller, _, op, _, input, -, -, hpool⟩ | ⟨_, thread, -, hpool⟩ | ⟨probe, hpool⟩ | hpool
  · rw [hpool]
    exact h
  · rw [hpool]
    show (World.answer input pool.state op).2.windows = InMemoryLimiter.after
      (checksOf (pool.log ++ [(caller, ⟨op, (World.answer input pool.state op).1⟩)]))
    rw [checksOf_append]
    cases hcheck : checkOf (caller, ⟨op, (World.answer input pool.state op).1⟩) with
    | none =>
        have hnone : checksOf [(caller, ⟨op, (World.answer input pool.state op).1⟩)] = [] := by
          rw [checksOf, List.filterMap_cons_none hcheck]
          rfl
        rw [World.windows_answer caller hcheck, hnone, List.append_nil]
        exact h
    | some check =>
        cases op with
        | windowCheck key limit window now =>
            have hlast : InMemoryLimiter.after (checksOf pool.log ++ [⟨key, limit, window, now⟩]) =
                (InMemoryLimiter.check (InMemoryLimiter.after (checksOf pool.log)) key limit window
                  now).2 := by
              rw [InMemoryLimiter.after, run_append]
              rfl
            rw [← h] at hlast
            exact hlast.symm
        | _ => cases hcheck
  · rw [hpool]
    exact (dropHandler_windows thread.history pool.state).trans h
  · rw [hpool]
    exact h
  · rw [hpool]
    exact h

/-- What the limiter answered to a check of the log. -/
theorem decision_of_logged (decode : TokenDecoder) (config : GatewayConfig)
    (redisReachable : Bool) (actions : List GatewayAction)
    {before rest : List (Nat × Event effects)} {index : Nat} {check : InMemoryLimiter.Check}
    {decision : RateDecision}
    (hlog : (gatewayAfter decode config redisReachable actions).log =
      before ++ (index, checkEvent check decision) :: rest) :
    decision = (InMemoryLimiter.step (InMemoryLimiter.after (checksOf before)) check).1 := by
  have hlogged := Pool.log_after_induction (server decode (.build config redisReachable))
    World.initial LoggedWindows
    (fun before entry => ∀ check decision, entry.2 = checkEvent check decision →
      decision = (InMemoryLimiter.step (InMemoryLimiter.after (checksOf before)) check).1)
    rfl (fun pool action h => loggedWindows_step decode _ pool action h) ?_ actions
  · exact hlogged before _ rest hlog check decision rfl
  · intro pool _ op input h check decision hevent
    obtain ⟨rfl, hanswer⟩ := Sigma.mk.inj hevent
    rw [← h]
    exact (eq_of_heq hanswer).symm

/-! ## Passing the limiter -/

/-- The thread was let through by a check of the bucket that has the given place among all
checks of the bucket. -/
def PassedAt (pool : GatewayPool) (key : String) (index : Nat) (place : Visit) : Prop :=
  ∃ before check decision rest, pool.log = before ++ (index, checkEvent check decision) :: rest ∧
    check.key = key ∧ decision.allowed = true ∧
    place = InMemoryLimiter.placeOf (checksOf before) check

theorem PassedAt.place_mem {pool : GatewayPool} {key : String} {index : Nat} {place : Visit}
    (h : PassedAt pool key index place) :
    place ∈ visits (InMemoryLimiter.arrivalsOf key (checksOf pool.log)) := by
  obtain ⟨before, check, decision, rest, hlog, rfl, -, rfl⟩ := h
  rw [hlog, checksOf_append, checksOf_check]
  exact InMemoryLimiter.placeOf_mem (checksOf before) check (checksOf rest)

/-- A check of the log that is not before another one of the same key is that check, or has
a later place. -/
theorem same_or_placeOf_precedes (before : List (Nat × Event effects))
    {between rest rest' : List (Nat × Event effects)} {index index' : Nat}
    {check check' : InMemoryLimiter.Check} {decision decision' : RateDecision}
    (hkey : check'.key = check.key)
    (hrest : (index, checkEvent check decision) :: rest =
      between ++ (index', checkEvent check' decision') :: rest') :
    index = index' ∨
      Visit.Precedes (InMemoryLimiter.placeOf (checksOf before) check)
        (InMemoryLimiter.placeOf (checksOf (before ++ between)) check') := by
  cases between with
  | nil =>
      obtain ⟨hentry, -⟩ := List.cons.inj hrest
      exact Or.inl (Prod.mk.inj hentry).1
  | cons first between =>
      obtain ⟨rfl, -⟩ := List.cons.inj hrest
      rw [checksOf_append, checksOf_check]
      exact Or.inr (InMemoryLimiter.placeOf_precedes (checksOf before) (checksOf between) hkey)

/-- No two threads pass at the same place. -/
theorem PassedAt.index_eq {pool : GatewayPool} {key : String} {index index' : Nat}
    {place place' : Visit} (h : PassedAt pool key index place)
    (h' : PassedAt pool key index' place') (hwindow : place.window = place'.window)
    (hordinal : place.ordinal = place'.ordinal) : index = index' := by
  obtain ⟨before, check, decision, rest, hlog, hkey, -, rfl⟩ := h
  obtain ⟨before', check', decision', rest', hlog', hkey', -, rfl⟩ := h'
  have hlogs := hlog.symm.trans hlog'
  -- Either the two entries are one, or one of them comes first and has a smaller place.
  rcases List.append_eq_append_iff.mp hlogs with ⟨between, rfl, hrest⟩ | ⟨between, rfl, hrest⟩
  · rcases same_or_placeOf_precedes before (hkey'.trans hkey.symm) hrest with hsame | hprecedes
    · exact hsame
    · unfold Visit.Precedes at hprecedes
      omega
  · rcases same_or_placeOf_precedes before' (hkey.trans hkey'.symm) hrest with hsame | hprecedes
    · exact hsame.symm
    · unfold Visit.Precedes at hprecedes
      omega

/-! ## The selected address -/

/-- The first address of `X-Forwarded-For`. -/
def forwardedFirst (headers : HeaderMap) : Option String := do
  let chain ← headers.getStr .xForwardedFor
  let first := Text.trim (Text.splitFirst chain ',')
  if first.isEmpty then none else some first

theorem clientIp_eq (headers : HeaderMap) (peer : String) :
    clientIp headers peer = (forwardedFirst headers).getD peer := by
  unfold clientIp forwardedFirst
  cases headers.getStr .xForwardedFor with
  | none => rfl
  | some chain =>
      simp only [Option.bind_eq_bind, Option.bind_some]
      by_cases hempty : (Text.trim (Text.splitFirst chain ',')).isEmpty
      · rw [if_neg (not_not.mpr hempty), if_pos hempty]
        rfl
      · rw [if_pos hempty, if_neg hempty]
        rfl

/-- The bucket of a client address on a route with the scope `Ip`. -/
def ipBucket (route : RouteConfig) (client : String) : String := rateKey .ip route.name client []

theorem bucketOf_ip (incoming : Incoming) (route : RouteConfig) {rl : RateLimitConfig}
    (hscope : rl.scope = .ip) : incoming.bucketOf route rl = ipBucket route incoming.clientIp := by
  unfold Incoming.bucketOf
  rw [hscope]
  rfl

/-- The thread serves a request on the route, the request is one of the given ones, and it
was let through in the given window of its own bucket. -/
def PassedIn (config : GatewayConfig) (pool : GatewayPool) (route : RouteConfig)
    (rl : RateLimitConfig) (window : Nat) (given : Incoming → Prop) (index : Nat) : Prop :=
  ∃ thread place, pool.threads[index]? = some thread ∧
    thread.request.routeOf config = some route ∧ given thread.request ∧
    PassedAt pool (thread.request.bucketOf route rl) index place ∧ place.window = window

section Pool

variable (decode : TokenDecoder) (config : GatewayConfig) (hvalid : config.Valid)
  (redisReachable : Bool) (actions : List GatewayAction) {route : RouteConfig}
  {rl : RateLimitConfig} (hlimit : route.rateLimit = some rl)

include hvalid hlimit

/-- A request on the route is let through only at a place within the limit of the route. -/
theorem place_le_of_passedAt {key : String} {index : Nat} {place : Visit}
    {thread : Thread effects Incoming Response}
    (hthread : (gatewayAfter decode config redisReachable actions).threads[index]? = some thread)
    (hroute : thread.request.routeOf config = some route)
    (h : PassedAt (gatewayAfter decode config redisReachable actions) key index place)
    (hfew : place.ordinal < 2 ^ 32) : place.ordinal ≤ rl.limit.toNat := by
  obtain ⟨before, check, decision, rest, hlog, -, hallowed, rfl⟩ := h
  have hmem : (index, checkEvent check decision) ∈
      (gatewayAfter decode config redisReachable actions).log := by
    rw [hlog]
    exact List.mem_append_right _ List.mem_cons_self
  obtain ⟨thread', hthread', hevent⟩ :=
    (gatewayAfter_coherent decode config redisReachable actions).mem_history hmem
  obtain rfl := Option.some.inj (hthread.symm.trans hthread')
  -- The check was made with the limit of the route that the request is matched to.
  obtain ⟨route', rl', hroute', hlimit', -, hchecked, -⟩ :=
    checksOwnBucket_after decode config hvalid redisReachable actions hthread hevent
  obtain rfl := Option.some.inj (hroute.symm.trans hroute')
  obtain rfl := Option.some.inj (hlimit.symm.trans hlimit')
  rw [decision_of_logged decode config redisReachable actions hlog, InMemoryLimiter.reply_eq,
    decision_allowed hfew, hchecked] at hallowed
  exact of_decide_eq_true hallowed

/-- At most `limit` requests of one bucket are let through in one of its windows. -/
theorem passedIn_card_le {key : String} {window : Nat} {given : Incoming → Prop}
    (hbucket : ∀ incoming, given incoming → incoming.bucketOf route rl = key)
    (hfew : ∀ visit ∈ visits (InMemoryLimiter.arrivalsOf key
        (checksOf (gatewayAfter decode config redisReachable actions).log)),
      visit.window = window → visit.ordinal < 2 ^ 32) (passed : Finset Nat)
    (hpassed : ∀ index ∈ passed, PassedIn config
      (gatewayAfter decode config redisReachable actions) route rl window given index) :
    passed.card ≤ rl.limit.toNat := by
  apply card_le_of_places passed rl.limit.toNat (fun index n => ∃ place,
    PassedAt (gatewayAfter decode config redisReachable actions) key index place ∧
      place.window = window ∧ place.ordinal = n)
  · intro index hindex
    obtain ⟨thread, place, hthread, hroute, hgiven, hplace, hwindow⟩ := hpassed index hindex
    rw [hbucket _ hgiven] at hplace
    have hmem := hplace.place_mem
    refine ⟨place.ordinal, ⟨place, hplace, hwindow, rfl⟩, visits_ordinal_pos _ place hmem, ?_⟩
    exact place_le_of_passedAt decode config hvalid redisReachable actions hlimit hthread hroute
      hplace (hfew place hmem hwindow)
  · rintro index - other - n ⟨place, hplace, hwindow, hordinal⟩ ⟨place', hplace', hwindow', hordinal'⟩
    exact hplace.index_eq hplace' (hwindow.trans hwindow'.symm) (hordinal.trans hordinal'.symm)

/-- A request that reads a cache, fills one or is sent to an upstream was let through by a
check of its bucket. -/
theorem passedAt_of_handsOut
    (hlimiter : (GatewayState.build config redisReachable).limiter = .inMemory) {index : Nat}
    {thread : Thread effects Incoming Response}
    (hthread : (gatewayAfter decode config redisReachable actions).threads[index]? = some thread)
    (hroute : thread.request.routeOf config = some route) {event : Event effects}
    (hevent : event ∈ thread.history) (hkind : event.1.kind ∈ handsOut) :
    ∃ place, PassedAt (gatewayAfter decode config redisReachable actions)
      (thread.request.bucketOf route rl) index place := by
  have hcoherent := gatewayAfter_coherent decode config redisReachable actions
  obtain ⟨before, after, hhistory⟩ := List.append_of_mem hevent
  obtain ⟨route', hroute', hpassed⟩ :=
    limitedBefore_after decode config hvalid redisReachable actions hthread hhistory hkind
  obtain rfl := Option.some.inj (hroute.symm.trans hroute')
  obtain ⟨earlier, checked, rest, decision, hbefore, hreturns, hallowed⟩ := hpassed rl hlimit
  rw [hlimiter] at hreturns
  obtain ⟨now, _, rfl, hrest⟩ := returns_call.mp hreturns
  obtain ⟨reply, _, rfl, hdone⟩ := returns_call.mp hrest
  obtain ⟨rfl, rfl⟩ := returns_done.mp hdone
  let check : InMemoryLimiter.Check := ⟨thread.request.bucketOf route rl, rl.limit,
    Duration.fromSecs rl.windowSecs.toNat, now⟩
  have hmem : checkEvent check decision ∈ thread.history := by
    rw [hhistory, hbefore]
    simp [checkEvent, check]
  rw [hcoherent.history index thread hthread] at hmem
  obtain ⟨⟨caller, event'⟩, hlogged, hcaller⟩ := List.mem_filterMap.mp hmem
  obtain ⟨rfl, rfl⟩ : caller = index ∧ event' = checkEvent check decision := by
    by_cases hsame : caller = index
    · rw [if_pos hsame] at hcaller
      exact ⟨hsame, Option.some.inj hcaller⟩
    · rw [if_neg hsame] at hcaller
      cases hcaller
  obtain ⟨front, back, hlog⟩ := List.append_of_mem hlogged
  exact ⟨_, front, check, decision, back, hlog, rfl, hallowed, rfl⟩

end Pool

/-- A peer that names no other address is counted under its own. -/
theorem clientIp_of_peer {incoming : Incoming}
    (h : ∀ first, forwardedFirst incoming.request.headers = some first → first = incoming.peer) :
    incoming.clientIp = incoming.peer := by
  show clientIp _ _ = _
  rw [clientIp_eq]
  cases hfirst : forwardedFirst incoming.request.headers with
  | none => rfl
  | some first => exact h first hfirst

/-- **The limit per client address.**  On a route with the scope `Ip` and the in-memory
limiter, in every run: in each window of the bucket of a client address in which fewer
than `2 ^ 32` checks happen, at most `limit` of the requests with that address get past
the rate-limit stage; and also at most `limit` of the requests of a peer with that address
whose `X-Forwarded-For` names no other one.  No request on the route reads a cache, fills
one or is sent to an upstream without having been let through by its bucket. -/
theorem ip_limit_per_client (decode : TokenDecoder) (config : GatewayConfig)
    (hvalid : config.validate = .ok ()) (redisReachable : Bool)
    (hlimiter : (GatewayState.build config redisReachable).limiter = .inMemory)
    (actions : List GatewayAction) (route : RouteConfig) (rl : RateLimitConfig)
    (hlimit : route.rateLimit = some rl) (hscope : rl.scope = .ip) :
    (∀ client window, (∀ visit ∈ visits (InMemoryLimiter.arrivalsOf (ipBucket route client)
          (checksOf (gatewayAfter decode config redisReachable actions).log)),
        visit.window = window → visit.ordinal < 2 ^ 32) →
      ∀ passed : Finset Nat,
        ((∀ index ∈ passed, PassedIn config (gatewayAfter decode config redisReachable actions)
            route rl window (fun incoming => incoming.clientIp = client) index) →
          passed.card ≤ rl.limit.toNat) ∧
        ((∀ index ∈ passed, PassedIn config (gatewayAfter decode config redisReachable actions)
            route rl window (fun incoming => incoming.peer = client ∧
              ∀ first, forwardedFirst incoming.request.headers = some first → first = client)
            index) →
          passed.card ≤ rl.limit.toNat)) ∧
    ∀ (index : Nat) (thread : Thread effects Incoming Response) (event : Event effects),
      (gatewayAfter decode config redisReachable actions).threads[index]? = some thread →
      thread.request.routeOf config = some route →
      event ∈ thread.history → event.1.kind ∈ handsOut →
        ∃ window, PassedIn config (gatewayAfter decode config redisReachable actions) route rl
          window (fun incoming => incoming = thread.request) index := by
  have hconfig := (validate_eq_ok_iff config).mp hvalid
  constructor
  · intro client window hfew passed
    constructor
    · apply passedIn_card_le decode config hconfig redisReachable actions hlimit _ hfew
      rintro incoming rfl
      exact bucketOf_ip incoming route hscope
    · apply passedIn_card_le decode config hconfig redisReachable actions hlimit _ hfew
      rintro incoming ⟨rfl, hnames⟩
      rw [bucketOf_ip incoming route hscope, clientIp_of_peer hnames]
  · intro index thread event hthread hroute hevent hkind
    obtain ⟨place, hplace⟩ := passedAt_of_handsOut decode config hconfig redisReachable actions
      hlimit hlimiter hthread hroute hevent hkind
    exact ⟨place.window, thread, place, hthread, hroute, rfl, hplace, rfl⟩

/-! ## One peer, two addresses -/

def callsLimit : RateLimitConfig := { scope := .ip, limit := 1 }

/-- A route that lets one request per address and minute through. -/
def callsRoute : RouteConfig :=
  { name := "calls", upstreams := [{ url := "http://calls:8081" }], rateLimit := some callsLimit }

def callsConfig : GatewayConfig := { routes := [callsRoute] }

def callsIncoming (headers : HeaderMap) : Incoming where
  request :=
    { method := .get
      uri := .ofPath "/calls" (by decide)
      headers := headers
      body := ⟨[], true⟩ }
  peer := "10.0.0.1"

/-- Two requests of one peer, the second with the given headers, each up to its call to
the upstream. -/
def callsRun (headers : HeaderMap) : List GatewayAction :=
  .arrive (callsIncoming []) :: List.replicate 14 (.advance 0 {}) ++
    .arrive (callsIncoming headers) :: List.replicate 14 (.advance 1 {})

def callsPool (headers : HeaderMap) : GatewayPool :=
  gatewayAfter noTokens callsConfig false (callsRun headers)

set_option maxRecDepth 4000 in
theorem callsPool_sends :
    ∃ thread, (callsPool []).threads[0]? = some thread ∧
      thread.request.routeOf callsConfig = some callsRoute ∧
      ∃ event, thread.history[13]? = some event ∧ event.1.kind = .send :=
  ⟨_, rfl, rfl, _, rfl, rfl⟩

/-- Of two requests without the header one gets past the stage, and no more. -/
theorem ip_limit_per_client_calls :
    (∃ window, PassedIn callsConfig (callsPool []) callsRoute callsLimit window
      (fun incoming => incoming.routeOf callsConfig = some callsRoute) 0) ∧
    ∀ passed : Finset Nat, (∀ index ∈ passed, PassedIn callsConfig (callsPool []) callsRoute
      callsLimit 0 (fun incoming => incoming.clientIp = "10.0.0.1") index) → passed.card ≤ 1 := by
  obtain ⟨hbound, hpassed⟩ := ip_limit_per_client noTokens callsConfig rfl false rfl (callsRun [])
    callsRoute callsLimit rfl rfl
  constructor
  · obtain ⟨thread, hthread, hroute, event, hevent, hkind⟩ := callsPool_sends
    obtain ⟨window, thread', place, hthread', hroute', hrequest, hplace⟩ :=
      hpassed 0 thread event hthread hroute (List.mem_of_getElem? hevent) (by rw [hkind]; decide)
    exact ⟨window, thread', place, hthread', hroute', hroute', hplace⟩
  · intro passed
    refine (hbound "10.0.0.1" 0 ?_ passed).1
    intro visit hvisit _
    have hplace := visits_ordinal_le _ visit hvisit
    have hchecks : (checksOf (callsPool []).log).length = 2 := by decide +kernel
    have hlength := List.length_filterMap_le (l := checksOf (callsPool []).log)
      (fun call => if call.key = ipBucket callsRoute "10.0.0.1" then
        some (⟨call.now, call.window⟩ : Arrival) else none)
    rw [hchecks] at hlength
    exact Nat.lt_of_le_of_lt (Nat.le_trans hplace hlength) (by decide)

/-- In the time of each window of a peer's bucket, at most `limit` requests of the peer on
the route are let through. -/
def PeerLimited (config : GatewayConfig) (pool : GatewayPool) (route : RouteConfig)
    (rl : RateLimitConfig) : Prop :=
  ∀ peer, ∀ visit ∈ visits (InMemoryLimiter.arrivalsOf (ipBucket route peer)
      (checksOf pool.log)), ∀ passed : Finset Nat,
    (∀ index ∈ passed, ∃ thread check decision, pool.threads[index]? = some thread ∧
      thread.request.routeOf config = some route ∧ thread.request.peer = peer ∧
      checkEvent check decision ∈ thread.history ∧ decision.allowed = true ∧
      visit.start ≤ check.now ∧
      check.now < visit.start + Duration.fromSecs rl.windowSecs.toNat) →
      passed.card ≤ rl.limit.toNat

/-- A request that names another address. -/
def otherAddress : HeaderMap := setHeader [] "x-forwarded-for" "203.0.113.9"

set_option maxRecDepth 4000 in
/-- Both requests are let through, at the same time. -/
theorem callsPool_passed : ∀ index ∈ ({0, 1} : Finset Nat), ∃ thread check decision,
    (callsPool otherAddress).threads[index]? = some thread ∧
      thread.request.routeOf callsConfig = some callsRoute ∧ thread.request.peer = "10.0.0.1" ∧
      thread.history[5]? = some (checkEvent check decision) ∧ decision.allowed = true ∧
      check.now = 0 := by
  intro index hindex
  rcases Finset.mem_insert.mp hindex with rfl | hindex
  · exact ⟨_, ⟨_, _, _, _⟩, _, rfl, rfl, rfl, rfl, rfl, rfl⟩
  · rw [Finset.mem_singleton.mp hindex]
    exact ⟨_, ⟨_, _, _, _⟩, _, rfl, rfl, rfl, rfl, rfl, rfl⟩

/-- The peer gets a second request past the limit of one, by naming another address. -/
theorem forwarded_address_evades_limit :
    callsConfig.validate = .ok () ∧ (GatewayState.build callsConfig false).limiter = .inMemory ∧
      ¬ PeerLimited callsConfig (callsPool otherAddress) callsRoute callsLimit := by
  refine ⟨rfl, rfl, fun h => ?_⟩
  have hvisit : (⟨0, 0, 0, 1⟩ : Visit) ∈ visits (InMemoryLimiter.arrivalsOf
      (ipBucket callsRoute "10.0.0.1") (checksOf (callsPool otherAddress).log)) := by
    decide +kernel
  have hcard := h "10.0.0.1" ⟨0, 0, 0, 1⟩ hvisit {0, 1} ?_
  · exact absurd hcard (by decide)
  · intro index hindex
    obtain ⟨thread, check, decision, hthread, hroute, hpeer, hevent, hallowed, hnow⟩ :=
      callsPool_passed index hindex
    refine ⟨thread, check, decision, hthread, hroute, hpeer, List.mem_of_getElem? hevent, hallowed,
      ?_⟩
    rw [hnow]
    decide

end Gateway
end ApiGateway
