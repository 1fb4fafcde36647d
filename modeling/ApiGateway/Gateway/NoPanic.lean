import ApiGateway.Gateway.Mediation
import ApiGateway.Gateway.SoloLoop
import ApiGateway.Library.Poisoning

/-!
# Operations that panic

The model of the request path lets instants grow without bound, lets counters wrap, and
has no locks.  Here each operation is checked as a build with overflow checks does it: an
instant is a signed 64-bit count of seconds on Linux, and adding to it panics beyond that;
a `u32` counter panics where a release build lets it wrap; an index has to be in bounds;
and a lock that was held by a panicking operation is poisoned.

`noPanic_iff` says when a run of the gateway is free of all this.  The indices are always
in bounds.  What is left is `Op.Fits`, a condition on three operations.
-/

namespace ApiGateway
namespace Gateway

open Library Core Program

inductive PanicKind where
  | instantOverflow
  | counterOverflow
  | indexOutOfBounds
  | poisonedMutex
  deriving DecidableEq, Repr

/-- The mutexes of the request path. -/
inductive Lock where
  | breaker (upstream : UpstreamId)
  | cache (route : RouteId)
  | windows
  deriving DecidableEq, Repr

/-! ## Checked arithmetic -/

/-- The first instant, in nanoseconds, whose seconds do not fit into 63 bits. -/
def instantLimit : Nat := 2 ^ 63 * 1000000000

/-- `Instant + Duration`. -/
def instantAdd (now : Instant) (span : Duration) : Except PanicKind Instant :=
  if now + span < instantLimit then .ok (now + span) else .error .instantOverflow

/-- `+= 1` on a `u32`. -/
def increment (count : UInt32) : Except PanicKind UInt32 :=
  if count.toNat + 1 < 2 ^ 32 then .ok (count + 1) else .error .counterOverflow

theorem ite_eq_ok_iff {α : Type} {fits : Prop} [Decidable fits] {panic : PanicKind}
    {value result : α} :
    (if fits then .ok value else .error panic : Except PanicKind α) = .ok result ↔
      fits ∧ result = value := by
  split
  · rename_i hfits
    exact ⟨fun h => ⟨hfits, (Except.ok.inj h).symm⟩, fun h => congrArg _ h.2.symm⟩
  · rename_i hfits
    exact ⟨nofun, fun h => absurd h.1 hfits⟩

theorem instantAdd_eq_ok_iff {now later : Instant} {span : Duration} :
    instantAdd now span = .ok later ↔ now + span < instantLimit ∧ later = now + span :=
  ite_eq_ok_iff

theorem increment_eq_ok_iff {count more : UInt32} :
    increment count = .ok more ↔ count.toNat + 1 < 2 ^ 32 ∧ more = count + 1 :=
  ite_eq_ok_iff

/-- Two checked steps in a row. -/
theorem steps_eq_ok_iff {α β : Type} {first : Except PanicKind α} {next : α → Except PanicKind β}
    {result : β} :
    (first >>= next) = .ok result ↔ ∃ value, first = .ok value ∧ next value = .ok result := by
  cases first with
  | error panic => exact ⟨nofun, fun ⟨_, h, _⟩ => nomatch h⟩
  | ok value => exact ⟨fun h => ⟨value, rfl, h⟩, fun ⟨_, h, hnext⟩ => Except.ok.inj h ▸ hnext⟩

/-- A checked step whose result is used without further checks. -/
theorem map_eq_ok_iff {α β : Type} {first : Except PanicKind α} {fits : Prop} {value : α}
    (h : ∀ {found}, first = .ok found ↔ fits ∧ found = value) {next : α → β} {result : β} :
    (first >>= fun found => .ok (next found)) = .ok result ↔ fits ∧ result = next value := by
  rw [steps_eq_ok_iff]
  constructor
  · rintro ⟨found, hfound, hresult⟩
    obtain ⟨hfits, rfl⟩ := h.mp hfound
    exact ⟨hfits, (Except.ok.inj hresult).symm⟩
  · rintro ⟨hfits, rfl⟩
    exact ⟨value, h.mpr ⟨hfits, rfl⟩, rfl⟩

/-! ## The checked operations -/

/-- `CircuitBreaker.recordFailureAt` with its checks. -/
def CircuitBreaker.tryRecordFailureAt (breaker : CircuitBreaker) (inner : Inner) (now : Instant) :
    Except PanicKind Inner := do
  let failures ← increment inner.consecutiveFailures
  if inner.state = .halfOpen ∨ breaker.threshold ≤ failures then do
    let openUntil ← instantAdd now breaker.openFor
    return { state := .opened, consecutiveFailures := failures, openUntil := some openUntil }
  else
    return { inner with consecutiveFailures := failures }

/-- `ResponseCache.put` with its check. -/
def ResponseCache.tryPut (cache : ResponseCache) (map : CacheMap) (hint : List String)
    (key : String) (status : Nat) (headers : List (String × String)) (body : Bytes)
    (evictedAt storedAt : Instant) : Except PanicKind CacheMap := do
  let expiresAt ← instantAdd storedAt cache.ttl
  return (cache.evict map hint key evictedAt).insert key
    { status := status, headers := headers, body := body, expiresAt := expiresAt }

/-- `InMemoryLimiter.check` with its check. -/
def InMemoryLimiter.tryCheck (windows : Windows) (key : String) (limit : UInt32)
    (window : Duration) (now : Instant) : Except PanicKind (RateDecision × Windows) := do
  let entry := (windows.lookup key).getD (now, 0)
  let entry := if window ≤ now - entry.1 then (now, 0) else entry
  let used ← increment entry.2
  return (decision limit used (asSecs (window - (now - entry.1))),
    windows.insert key (entry.1, used))

/-- The failure can be counted, and the deadline can be set if the breaker opens. -/
def CircuitBreaker.FailureFits (breaker : CircuitBreaker) (inner : Inner) (now : Instant) : Prop :=
  inner.consecutiveFailures.toNat + 1 < 2 ^ 32 ∧
    (inner.state = .halfOpen ∨ breaker.threshold ≤ inner.consecutiveFailures + 1 →
      now + breaker.openFor < instantLimit)

/-- The counter of a running window has room for one more request. -/
def InMemoryLimiter.CountFits (windows : Windows) (key : String) (window : Duration)
    (now : Instant) : Prop :=
  ∀ start count, windows.lookup key = some (start, count) → now - start < window →
    count.toNat + 1 < 2 ^ 32

theorem CircuitBreaker.tryRecordFailureAt_eq_ok_iff {breaker : CircuitBreaker}
    {inner later : Inner} {now : Instant} :
    breaker.tryRecordFailureAt inner now = .ok later ↔
      breaker.FailureFits inner now ∧ later = breaker.recordFailureAt inner now := by
  unfold tryRecordFailureAt FailureFits recordFailureAt
  simp only [steps_eq_ok_iff, increment_eq_ok_iff]
  constructor
  · rintro ⟨failures, ⟨hcount, rfl⟩, hrest⟩
    split at hrest
    · rename_i hopens
      obtain ⟨openUntil, hadd, hlater⟩ := steps_eq_ok_iff.mp hrest
      obtain ⟨hfits, rfl⟩ := instantAdd_eq_ok_iff.mp hadd
      rw [if_pos hopens]
      exact ⟨⟨hcount, fun _ => hfits⟩, (Except.ok.inj hlater).symm⟩
    · rename_i hstays
      rw [if_neg hstays]
      exact ⟨⟨hcount, fun hopens => absurd hopens hstays⟩, (Except.ok.inj hrest).symm⟩
  · rintro ⟨⟨hcount, hfits⟩, rfl⟩
    refine ⟨_, ⟨hcount, rfl⟩, ?_⟩
    split
    · rename_i hopens
      exact steps_eq_ok_iff.mpr ⟨_, instantAdd_eq_ok_iff.mpr ⟨hfits hopens, rfl⟩, rfl⟩
    · rfl

theorem ResponseCache.tryPut_eq_ok_iff {cache : ResponseCache} {map later : CacheMap}
    {hint : List String} {key : String} {status : Nat} {headers : List (String × String)}
    {body : Bytes} {evictedAt storedAt : Instant} :
    cache.tryPut map hint key status headers body evictedAt storedAt = .ok later ↔
      storedAt + cache.ttl < instantLimit ∧
        later = cache.put map hint key status headers body evictedAt storedAt :=
  map_eq_ok_iff instantAdd_eq_ok_iff

theorem InMemoryLimiter.tryCheck_eq_ok_iff {windows : Windows} {key : String} {limit : UInt32}
    {window : Duration} {now : Instant} {reply : RateDecision × Windows} :
    tryCheck windows key limit window now = .ok reply ↔
      CountFits windows key window now ∧ reply = check windows key limit window now := by
  have hfits : CountFits windows key window now ↔
      (if window ≤ now - ((windows.lookup key).getD (now, 0)).1 then (now, (0 : UInt32))
        else (windows.lookup key).getD (now, 0)).2.toNat + 1 < 2 ^ 32 := by
    unfold CountFits
    cases windows.lookup key with
    | none => simp
    | some entry =>
        rw [Option.getD_some]
        split
        · rename_i hover
          refine ⟨fun _ => Nat.one_lt_two_pow (by decide), ?_⟩
          intro _ start count hentry hrunning
          rw [Option.some.inj hentry] at hover
          exact absurd hrunning (Nat.not_lt.mpr hover)
        · rename_i hrunning
          constructor
          · intro h
            exact h entry.1 entry.2 rfl (Nat.lt_of_not_le hrunning)
          · intro h start count hentry _
            rwa [Option.some.inj hentry] at h
  rw [hfits]
  exact map_eq_ok_iff increment_eq_ok_iff

/-- The mutex that an operation holds. -/
def Op.lock : Op → Option Lock
  | .allowAt upstream _ | .breakerState upstream => some (.breaker upstream)
  | .recordSuccess upstream | .recordFailureAt upstream _ _ => some (.breaker upstream)
  | .cacheGet route _ | .cachePut route _ _ _ _ _ => some (.cache route)
  | .windowCheck _ _ _ _ => some .windows
  | _ => none

/-- The upstream that an operation is about.  It is reached by its index. -/
def Op.upstreamOf : Op → Option UpstreamId
  | .isHealthy upstream | .allowAt upstream _ | .active upstream => some upstream
  | .guardNew upstream | .guardDrop upstream | .send upstream _ => some upstream
  | .breakerState upstream | .recordSuccess upstream => some upstream
  | .recordFailureAt upstream _ _ => some upstream
  | _ => none

/-- The number of upstreams of a configured route. -/
def upstreamCount (config : GatewayConfig) (id : RouteId) : Nat :=
  (config.routes[id]?).elim 0 fun route => route.upstreams.length

/-- The index of the upstream, if there is one, is in bounds. -/
def Op.InBounds (config : GatewayConfig) (op : Op) : Prop :=
  ∀ upstream, op.upstreamOf = some upstream → upstream.index < upstreamCount config upstream.route

instance (config : GatewayConfig) (op : Op) : Decidable (op.InBounds config) :=
  match h : op.upstreamOf with
  | none => isTrue fun _ hsome => nomatch h.symm.trans hsome
  | some upstream =>
      if hlt : upstream.index < upstreamCount config upstream.route then
        isTrue fun _ hsome => Option.some.inj (h.symm.trans hsome) ▸ hlt
      else isFalse fun hall => hlt (hall upstream h)

/-- Nothing that the operation adds up is too large. -/
def Op.Fits (input : Input) (world : World) : Op → Prop
  | .recordFailureAt upstream breaker now =>
      breaker.FailureFits (world.upstream upstream).breaker now
  | .cachePut _ cache _ _ _ _ =>
      world.now + input.elapsed + input.held + cache.ttl < instantLimit
  | .windowCheck key _ window now => InMemoryLimiter.CountFits world.windows key window now
  | _ => True

namespace World

/-- `answerNow` with the checks of the operation. -/
def tryAnswerNow (input : Input) (world : World) :
    (op : Op) → Except PanicKind (op.Res × World)
  | .recordFailureAt id breaker now => do
      let inner ← breaker.tryRecordFailureAt (world.upstream id).breaker now
      return ((), world.setUpstream id { world.upstream id with breaker := inner })
  | .cachePut id cache key status headers body => do
      let map ← cache.tryPut (world.route id).cache input.iterationHint key status headers body
        world.now (world.now + input.held)
      return ((), (world.tick input.held).setRoute id { world.route id with cache := map })
  | .windowCheck key limit window now => do
      let checked ← InMemoryLimiter.tryCheck world.windows key limit window now
      return (checked.1, { world with windows := checked.2 })
  | op => return answerNow input world op

/-- Time passes, then the operation reaches its upstream and happens. -/
def tryAnswer (config : GatewayConfig) (input : Input) (world : World) (op : Op) :
    Except PanicKind (op.Res × World) :=
  if op.InBounds config then tryAnswerNow input (world.tick input.elapsed) op
  else .error .indexOutOfBounds

theorem tryAnswerNow_eq_ok_iff {input : Input} {world : World} {op : Op} {reply : op.Res × World} :
    tryAnswerNow input (world.tick input.elapsed) op = .ok reply ↔
      op.Fits input world ∧ reply = answer input world op := by
  cases op with
  | recordFailureAt id breaker now =>
      exact map_eq_ok_iff CircuitBreaker.tryRecordFailureAt_eq_ok_iff
  | cachePut id cache key status headers body =>
      exact map_eq_ok_iff ResponseCache.tryPut_eq_ok_iff
  | windowCheck key limit window now =>
      exact map_eq_ok_iff InMemoryLimiter.tryCheck_eq_ok_iff
  | _ => exact ⟨fun h => ⟨trivial, (Except.ok.inj h).symm⟩, fun h => congrArg _ h.2.symm⟩

theorem tryAnswer_eq_ok_iff {config : GatewayConfig} {input : Input} {world : World} {op : Op}
    {reply : op.Res × World} :
    tryAnswer config input world op = .ok reply ↔
      op.InBounds config ∧ op.Fits input world ∧ reply = answer input world op := by
  unfold tryAnswer
  split
  · rename_i hbounds
    rw [tryAnswerNow_eq_ok_iff]
    exact ⟨fun h => ⟨hbounds, h⟩, fun h => h.2⟩
  · rename_i hbounds
    exact ⟨nofun, fun h => absurd h.1 hbounds⟩

end World

/-- The gateway with the checks of its operations. -/
def checkedServer (decode : TokenDecoder) (config : GatewayConfig) (redisReachable : Bool) :
    Checked effects Incoming Input Probe World Response Lock PanicKind where
  server := server decode (.build config redisReachable)
  lock := Op.lock
  attempt := World.tryAnswer config
  poisoned := .poisonedMutex
  attempt_ok h := (World.tryAnswer_eq_ok_iff.mp h).2.2

/-- The checked gateway built from a configuration, after a run of any length. -/
def checkedAfter (decode : TokenDecoder) (config : GatewayConfig) (redisReachable : Bool)
    (actions : List GatewayAction) :
    CheckedPool effects Incoming World Response Lock PanicKind :=
  CheckedPool.after (checkedServer decode config redisReachable) World.initial actions

/-! ## Every index is in bounds -/

section Bounds

variable {config : GatewayConfig}

theorem inBounds_of_eq_none {op : Op} (h : op.upstreamOf = none) : op.InBounds config :=
  fun _ hsome => nomatch h.symm.trans hsome

/-- A plain stage that picks no upstream and reports no outcome is about no upstream. -/
theorem stage_inBounds {α : Type} {kinds : List OpKind} {program : GatewayProgram α}
    (hplain : program.Makes Exchange.IsPlainCall) (hmakes : MakesKinds kinds program)
    (hkinds : ∀ kind ∈ kinds, kind ∉ [.pick, .guardDrop, .outcome]) :
    program.Makes (Op.InBounds config) := by
  refine Makes.mono (hplain.and hmakes) fun op hop => inBounds_of_eq_none ?_
  have hkind := hkinds _ hop.2
  cases op with
  | isHealthy _ | allowAt _ _ | active _ | guardNew _ | guardDrop _ => simp at hkind
  | recordSuccess _ | recordFailureAt _ _ _ => simp at hkind
  | send _ _ | breakerState _ => exact absurd hop.1 id
  | _ => rfl

variable {id : RouteId} {balancer : Balancer}
  (hcount : balancer.upstreams.length = upstreamCount config id)

include hcount

/-- Picking stays within the round-robin order, and that within the upstreams. -/
theorem pick_inBounds (hupstreams : balancer.upstreams ≠ []) (exclude : List Nat) :
    (balancer.pick id exclude).Makes (Op.InBounds config) := by
  have hsearched : ∀ index, balancer.Searches exclude index → index < upstreamCount config id := by
    rintro index ⟨horder | hlt, -⟩
    · rw [← hcount]
      exact balancer.rrOrder_lt hupstreams index horder
    · rwa [← hcount]
  have hsearch : (balancer.pickIndex id exclude).Makes (Op.InBounds config) := by
    refine (Balancer.pickIndex_makes balancer id exclude).mono fun op hop => ?_
    cases op with
    | isHealthy upstream | allowAt upstream _ | active upstream =>
        rintro _ ⟨⟩
        rw [hop.1]
        exact hsearched _ hop.2
    | rrFetchAdd _ | instantNow => exact inBounds_of_eq_none rfl
    | _ => cases hop
  refine makes_bind hsearch fun trace choice hreturns => ?_
  cases choice with
  | none => trivial
  | some index =>
      have hlt := (Balancer.pickIndex_ensures balancer hupstreams id exclude trace _ hreturns index
        rfl).1
      refine makes_perform ?_ fun _ => trivial
      rintro _ ⟨⟩
      rwa [hcount] at hlt

end Bounds

namespace Exchange

variable {config : GatewayConfig} (exchange : Exchange)
  (hcount : exchange.runtime.balancer.upstreams.length = upstreamCount config exchange.runtime.id)

theorem record_inBounds (status : StatusCode) :
    (exchange.record status).Makes (Op.InBounds config) :=
  stage_inBounds (exchange.record_isPlainCall status) (exchange.record_makesKinds status)
    (by decide)

include hcount

theorem settle_inBounds (attempt : Nat) {index : Nat}
    (hlt : index < exchange.runtime.balancer.upstreams.length) (target : Upstream)
    (result : SendResult) :
    (exchange.settle attempt index target result).Makes (Op.InBounds config) := by
  have hkeeps := exchange.settle_keepsTo attempt index target result
  have hplain := exchange.settle_isPlainCall attempt index target result
  have hkinds := exchange.settle_makesKinds attempt index target result
  refine ((Makes.and hkeeps hplain).and hkinds).mono fun op hop upstream hupstream => ?_
  cases op with
  | recordSuccess _ | recordFailureAt _ _ _ =>
      rw [hop.1.1 upstream hupstream, ← hcount]
      exact hlt
  | isHealthy _ | allowAt _ _ | active _ | guardNew _ | guardDrop _ => simp at hop
  | send _ _ | breakerState _ => exact absurd hop.1.2 id
  | _ => cases hupstream

/-- An attempt is about the upstream that was picked. -/
theorem tryUpstream_inBounds (bodyBytes : Bytes) (attempt : Nat) {index : Nat}
    (hlt : index < exchange.runtime.balancer.upstreams.length) (target : Upstream) :
    (exchange.tryUpstream bodyBytes attempt index target).Makes (Op.InBounds config) := by
  have hown : ∀ op : Op, op.upstreamOf = some ⟨exchange.runtime.id, index⟩ →
      op.InBounds config := by
    intro op hop upstream hupstream
    obtain rfl := Option.some.inj (hop.symm.trans hupstream)
    rwa [← hcount]
  refine makes_perform (inBounds_of_eq_none rfl) fun start => makes_perform (hown _ rfl)
    fun result => makes_perform (inBounds_of_eq_none rfl) fun _ => makes_perform (hown _ rfl)
    fun state => makes_perform (inBounds_of_eq_none rfl) fun _ => ?_
  exact makes_bind (exchange.settle_inBounds hcount attempt hlt target result) fun _ _ _ =>
    makes_perform (hown _ rfl) fun _ => trivial

variable (hupstreams : exchange.runtime.balancer.upstreams ≠ [])

include hupstreams

theorem attemptLoop_inBounds (bodyBytes : Bytes) (remaining attempt : Nat) (excluded : List Nat) :
    (exchange.attemptLoop bodyBytes remaining attempt excluded).Makes (Op.InBounds config) := by
  induction remaining generalizing attempt excluded with
  | zero => exact makes_bind (exchange.record_inBounds _) fun _ _ _ => trivial
  | succ remaining ih =>
      refine makes_bind (pick_inBounds hcount hupstreams excluded) fun trace picked hpicked => ?_
      cases picked with
      | none => exact makes_bind (exchange.record_inBounds _) fun _ _ _ => trivial
      | some found =>
          obtain ⟨index, target⟩ := found
          have hlt := (Balancer.pick_ensures _ hupstreams _ _ trace _ hpicked index target rfl).1
          refine makes_bind (exchange.tryUpstream_inBounds hcount bodyBytes attempt hlt target)
            fun _ settled _ => ?_
          cases settled with
          | none => exact ih _ _
          | some response => trivial

theorem serve_inBounds (decode : TokenDecoder) :
    (exchange.serve decode).Makes (Op.InBounds config) := by
  apply serve_makes_of_stages
  · exact stage_inBounds (exchange.authenticate_isPlainCall decode)
      (exchange.authenticate_makesKinds decode) (by decide)
  · exact stage_inBounds exchange.limitRate_isPlainCall exchange.limitRate_makesKinds (by decide)
  · exact stage_inBounds exchange.lookupCache_isPlainCall exchange.lookupCache_makesKinds
      (by decide)
  · refine makes_perform (inBounds_of_eq_none rfl) fun _ => ?_
    split
    · exact makes_bind (exchange.record_inBounds _) fun _ _ _ => trivial
    · exact exchange.attemptLoop_inBounds hcount hupstreams _ _ _ _

end Exchange

/-- Every call of a handler reaches an upstream that is there. -/
theorem handle_inBounds {config : GatewayConfig} (hconfig : config.Valid) (decode : TokenDecoder)
    (redisReachable : Bool) (incoming : Incoming) :
    (handle decode (.build config redisReachable) incoming).Makes (Op.InBounds config) := by
  refine makes_perform (inBounds_of_eq_none rfl) fun _ => makes_bind ?_ fun _ _ _ =>
    makes_perform (inBounds_of_eq_none rfl) fun _ => trivial
  apply routeAndProxy_makes_of_serve
  · rintro op (rfl | rfl | rfl) -
    · exact inBounds_of_eq_none rfl
    · exact inBounds_of_eq_none rfl
    · exact inBounds_of_eq_none rfl
  · exact fun _ => inBounds_of_eq_none rfl
  · intro route runtime correlation started hmatched hruntime
    obtain ⟨id, hconfigured, hroute⟩ := route_of_matchRoute redisReachable hconfig hmatched
    obtain rfl := Option.some.inj (hroute.symm.trans hruntime)
    have hupstreams := (hconfig.routes route (List.mem_of_getElem? hconfigured)).hasUpstream
    apply Exchange.serve_inBounds
    · show ((Balancer.fromRoute route).upstreams).length = upstreamCount config id
      simp [upstreamCount, hconfigured, Balancer.fromRoute]
    · simpa [Exchange.new, RouteRuntime.fromConfig, Balancer.fromRoute] using hupstreams

/-- **Freedom from panics.**  In every run of the gateway built from an accepted
configuration, of any length and in any order, no operation panics and no mutex is
poisoned if and only if every operation of the run fits: no failure is reported to a
breaker whose counter is at its limit, or opens a breaker for longer than instants reach;
no response is stored for longer than instants reach; and no request is counted in a
running window whose counter is at its limit. -/
theorem noPanic_iff (decode : TokenDecoder) (config : GatewayConfig)
    (hvalid : config.validate = .ok ()) (redisReachable : Bool) (actions : List GatewayAction) :
    (checkedAfter decode config redisReachable actions).panics = [] ∧
        (checkedAfter decode config redisReachable actions).poisoned = [] ↔
      ∀ before action rest, actions = before ++ action :: rest → ∀ input op,
        (gatewayAfter decode config redisReachable before).Calls action input op →
          op.Fits input (gatewayAfter decode config redisReachable before).state := by
  have hconfig := (validate_eq_ok_iff config).mp hvalid
  have hbounds : ∀ before (action : GatewayAction) input op,
      (gatewayAfter decode config redisReachable before).Calls action input op →
        op.InBounds config := by
    rintro before action input op ⟨index, thread, next, -, hthread, hpending⟩
    have hsteps := (gatewayAfter_coherent decode config redisReachable before).steps index thread
      hthread
    rw [Thread.rest_of_pending? hpending] at hsteps
    exact Makes.of_mem (handle_inBounds hconfig decode redisReachable thread.request)
      (hsteps.snoc (World.answer {} World.initial op).1) List.mem_concat_self
  have hfree := CheckedPool.panics_eq_nil_iff (checkedServer decode config redisReachable)
    World.initial actions
  have hafter := CheckedPool.after_of_passes (checkedServer decode config redisReachable)
    World.initial actions
  constructor
  · rintro ⟨hpanics, -⟩ before action rest hsplit input op hcalls
    obtain ⟨reply, hreply⟩ := hfree.mp hpanics before action rest hsplit input op hcalls
    exact (World.tryAnswer_eq_ok_iff.mp hreply).2.1
  · intro hfits
    have hpasses : ∀ before action rest, actions = before ++ action :: rest →
        (checkedServer decode config redisReachable).Passes
          (gatewayAfter decode config redisReachable before) action := by
      intro before action rest hsplit input op hcalls
      exact ⟨_, World.tryAnswer_eq_ok_iff.mpr ⟨hbounds before action input op hcalls,
        hfits before action rest hsplit input op hcalls, rfl⟩⟩
    exact ⟨congrArg CheckedPool.panics (hafter hpasses), congrArg CheckedPool.poisoned (hafter hpasses)⟩

/-- A route whose breaker opens at the first failure, for the given number of seconds. -/
def openingRoute (openSecs : UInt64) : RouteConfig :=
  { echoRoute with circuitBreaker := { failureThreshold := 1, openSecs := openSecs } }

/-- Two requests after each other; calls to the upstream are refused. -/
def openingRun : List GatewayAction :=
  .arrive echoIncoming :: List.replicate 22 (.advance 0 {}) ++
    .arrive echoIncoming :: List.replicate 22 (.advance 1 {})

def openingPool (openSecs : UInt64) :
    CheckedPool effects Incoming World Response Lock PanicKind :=
  checkedAfter noTokens { routes := [openingRoute openSecs] } false openingRun

set_option maxRecDepth 4000 in
theorem noPanic_opening :
    (openingPool 30).panics = [] ∧ (openingPool 30).poisoned = [] ∧
      ∀ before action rest, openingRun = before ++ action :: rest → ∀ input op,
        (gatewayAfter noTokens { routes := [openingRoute 30] } false before).Calls action input op →
          op.Fits input
            (gatewayAfter noTokens { routes := [openingRoute 30] } false before).state := by
  have hpanics : (openingPool 30).panics = [] := rfl
  have hpoisoned : (openingPool 30).poisoned = [] := rfl
  exact ⟨hpanics, hpoisoned, (noPanic_iff noTokens { routes := [openingRoute 30] } rfl false
    openingRun).mp ⟨hpanics, hpoisoned⟩⟩

set_option maxRecDepth 4000 in
/-- The largest `open_secs` is accepted.  The failure that opens the breaker panics while
it holds the mutex, and the next request panics on the poisoned mutex. -/
theorem opening_breaker_panics :
    GatewayConfig.validate { routes := [openingRoute 18446744073709551615] } = .ok () ∧
      (openingPool 18446744073709551615).panics =
        [(0, .instantOverflow), (1, .poisonedMutex)] ∧
      (openingPool 18446744073709551615).poisoned = [.breaker ⟨0, 0⟩] :=
  ⟨rfl, rfl, rfl⟩

end Gateway
end ApiGateway
