import ApiGateway.Gateway.HealthTasks
import ApiGateway.Gateway.PickContention

/-!
# Health checks and breakers gate every attempt

A handler sends only to an upstream that it has tested since its last send, and the tests are
answered from the cells at that moment.  So for every request that reaches an upstream there
is a moment, after the handler's previous attempt, at which the last probe of the upstream had
found it healthy, and one at which its breaker let the request through.  A flag that
changes after the test does not call the request back.
-/

namespace ApiGateway
namespace Gateway
namespace Health

open Library Core Program

/-! ## Along one handler -/

/-- A send follows tests of its upstream that are newer than every send before it. -/
def SendTested (history : List (Event effects)) : Op → Prop
  | .send upstream _ =>
      ∃ earlier round, history = earlier ++ round ∧ sends round = [] ∧ Vouched upstream round
  | _ => True

theorem sendTested_of_kind {history : List (Event effects)} {op : Op} (h : op.kind ≠ .send) :
    SendTested history op := by
  cases op with
  | send _ _ => exact absurd rfl h
  | _ => trivial

theorem sendTested_of_makesKinds {α : Type} {kinds : List OpKind} {program : GatewayProgram α}
    {history : List (Event effects)} (h : MakesKinds kinds program) (hkinds : .send ∉ kinds) :
    program.Guarded SendTested history :=
  Makes.guarded h fun _ _ hop => sendTested_of_kind fun hsend => hkinds (hsend ▸ hop)

theorem tryUpstream_sendTested (exchange : Exchange) (bodyBytes : Bytes) (attempt index : Nat)
    (upstream : Upstream) {earlier round : List (Event effects)} (hsends : sends round = [])
    (hvouched : Vouched ⟨exchange.runtime.id, index⟩ round) :
    (exchange.tryUpstream bodyBytes attempt index upstream).Guarded SendTested
      (earlier ++ round) := by
  refine guarded_perform trivial fun start => guarded_perform ?_ fun result => ?_
  · refine ⟨earlier, round ++ [⟨.instantNow, start⟩], by simp, ?_, ?_⟩
    · rw [sends_append, hsends]
      rfl
    · exact hvouched.mono (List.subset_append_left _ _)
  · refine guarded_perform trivial fun _ => guarded_perform trivial fun _ =>
      guarded_perform trivial fun _ => ?_
    refine guarded_bind ?_ fun _ _ _ => guarded_perform trivial fun _ => trivial
    exact sendTested_of_makesKinds (exchange.settle_makesKinds _ _ _ _) (by decide)

theorem attemptLoop_sendTested (exchange : Exchange) (bodyBytes : Bytes)
    (remaining attempt : Nat) (excluded : List Nat) (history : List (Event effects)) :
    (exchange.attemptLoop bodyBytes remaining attempt excluded).Guarded SendTested history := by
  have hrecord : ∀ status history, (exchange.record status).Guarded SendTested history :=
    fun status _ => sendTested_of_makesKinds (exchange.record_makesKinds status) (by decide)
  induction remaining generalizing attempt excluded history with
  | zero => exact guarded_bind (hrecord _ _) fun _ _ _ => trivial
  | succ remaining ih =>
      have hpick := Balancer.pick_makesKinds exchange.runtime.balancer exchange.runtime.id excluded
      refine guarded_bind (sendTested_of_makesKinds hpick (by decide))
        fun picking picked hpicked => ?_
      cases picked with
      | none => exact guarded_bind (hrecord _ _) fun _ _ _ => trivial
      | some picked =>
          obtain ⟨index, upstream⟩ := picked
          -- The calls of `pick` are the round: they test, and they send nothing.
          have hsends : sends picking = [] :=
            sends_eq_nil_of_notes (notes_of_makesKinds hpick (by decide) picking _ hpicked)
          have hvouched := (Balancer.pick_vetted exchange.runtime.balancer exchange.runtime.id
            excluded picking _ hpicked).found index rfl
          refine guarded_bind (tryUpstream_sendTested exchange bodyBytes attempt index upstream
            hsends hvouched) fun tried settled _ => ?_
          cases settled with
          | none => exact ih (attempt + 1) (excluded ++ [index]) _
          | some response => trivial

theorem serve_sendTested (decode : TokenDecoder) (exchange : Exchange)
    (history : List (Event effects)) :
    (exchange.serve decode).Guarded SendTested history := by
  apply Exchange.serve_guarded_of_stages
  · exact sendTested_of_makesKinds (exchange.authenticate_makesKinds decode) (by decide)
  · intro auth _
    exact sendTested_of_makesKinds exchange.limitRate_makesKinds (by decide)
  · intro auth limited _ _
    exact sendTested_of_makesKinds exchange.lookupCache_makesKinds (by decide)
  · intro auth limited looked _ _ _
    refine guarded_perform trivial fun _ => ?_
    split
    · exact guarded_bind (sendTested_of_makesKinds (exchange.record_makesKinds _) (by decide))
        fun _ _ _ => trivial
    · exact attemptLoop_sendTested exchange _ _ _ _ _

theorem handle_sendTested (decode : TokenDecoder) (state : GatewayState) (incoming : Incoming) :
    (handle decode state incoming).Guarded SendTested [] := by
  apply handle_guarded_of_serve
  · intro history op hop
    refine sendTested_of_kind fun hsend => ?_
    rw [hsend] at hop
    exact absurd hop (by decide)
  · intro route runtime correlation started history _ _ _ _
    exact serve_sendTested decode _ history

/-! ## Along a run -/

section Runs

variable {decode : TokenDecoder} {config : GatewayConfig} {redisReachable : Bool}
  {checks : HealthChecks} {runtimes : List RouteRuntime}

/-- The same for an action of the system. -/
theorem history_systemStep (state : GatewayState) (system : System) (action : SystemAction)
    {index : Nat} {thread : Thread effects Incoming Response}
    (h : (system.step (server decode state) action).pool.threads[index]? = some thread) :
    thread.history = [] ∨
      ∃ old, system.pool.threads[index]? = some old ∧
        (thread.history = old.history ∨ ∃ op input, thread.history = old.history ++
          [⟨op, (World.answer input system.pool.state op).1⟩]) := by
  cases action with
  | arrive incoming => exact Pool.history_step _ system.pool (.arrive incoming) h
  | advance caller input => exact Pool.history_step _ system.pool (.advance caller input) h
  | drop caller => exact Pool.history_step _ system.pool (.cancel caller) h
  | pass elapsed | shutdown | join => exact Or.inr ⟨thread, h, Or.inl rfl⟩
  | move task move =>
      rcases step_move_cases (server decode state) system task move with
        ⟨running, phase, -, -, hstep⟩ | hstep
      · rw [hstep] at h
        have hthreads : (afterEvent (server decode state) system.pool
            (running.task.event system.pool.state.now move)).threads = system.pool.threads := by
          unfold afterEvent
          split <;> rfl
        rw [hthreads] at h
        exact Or.inr ⟨thread, h, Or.inl rfl⟩
      · rw [hstep] at h
        exact Or.inr ⟨thread, h, Or.inl rfl⟩

/-- The call at each place of a thread's history was answered at some moment of the run, when
the calls before it were all that the thread had made. -/
theorem exists_moment (actions : List SystemAction) {index : Nat}
    {thread : Thread effects Incoming Response}
    (hthread : (systemAfter decode config redisReachable checks runtimes
      actions).pool.threads[index]? = some thread)
    {before after : List (Event effects)} {event : Event effects}
    (hhistory : thread.history = before ++ event :: after) :
    ∃ past rest input caller, actions = past ++ rest ∧
      (systemAfter decode config redisReachable checks runtimes
        past).pool.threads[index]? = some caller ∧
      caller.history = before ∧
      (World.answer input (systemAfter decode config redisReachable checks runtimes
        past).pool.state event.1).1 = event.2 := by
  induction actions using List.reverseRecOn generalizing thread after with
  | nil => cases hthread
  | append_singleton actions action ih =>
      -- A call that was made before the last action has its moment already.
      have hearlier : ∀ {old after'}, (systemAfter decode config redisReachable checks runtimes
          actions).pool.threads[index]? = some old → old.history = before ++ event :: after' →
          ∃ past rest input caller, actions ++ [action] = past ++ rest ∧
            (systemAfter decode config redisReachable checks runtimes
              past).pool.threads[index]? = some caller ∧
            caller.history = before ∧
            (World.answer input (systemAfter decode config redisReachable checks runtimes
              past).pool.state event.1).1 = event.2 := by
        intro old after' hold hsplit
        obtain ⟨past, rest, input, caller, rfl, hcaller, hbefore, hanswer⟩ := ih hold hsplit
        exact ⟨past, rest ++ [action], input, caller, List.append_assoc .., hcaller, hbefore,
          hanswer⟩
      rw [systemAfter_snoc] at hthread
      rcases history_systemStep _ _ action hthread with hnil | ⟨old, hold, hsame | ⟨op, input, hcall⟩⟩
      · rw [hnil] at hhistory
        simp at hhistory
      · exact hearlier hold (hsame ▸ hhistory)
      · rw [hcall] at hhistory
        cases after using List.reverseRecOn with
        | nil =>
            obtain ⟨hbefore, hevent⟩ := List.append_inj' hhistory rfl
            obtain rfl := (List.cons.inj hevent).1
            exact ⟨actions, [action], input, old, rfl, hold, hbefore, rfl⟩
        | append_singleton after last =>
            rw [← List.cons_append, ← List.append_assoc] at hhistory
            exact hearlier hold (List.append_inj' hhistory rfl).1

end Runs

/-- At some moment of the run the property held of the system, when the calls of the thread
reached at least to the end of `earlier` and no further than `before`. -/
def During (decode : TokenDecoder) (config : GatewayConfig) (redisReachable : Bool)
    (checks : HealthChecks) (runtimes : List RouteRuntime) (actions : List SystemAction)
    (index : Nat) (earlier before : List (Event effects)) (holds : System → Prop) : Prop :=
  ∃ past rest caller, actions = past ++ rest ∧
    (systemAfter decode config redisReachable checks runtimes
      past).pool.threads[index]? = some caller ∧
    earlier <+: caller.history ∧ caller.history <+: before ∧
    holds (systemAfter decode config redisReachable checks runtimes past)

/-- The answer to a call of the round was given while the round was on. -/
theorem during_of_mem {decode : TokenDecoder} {config : GatewayConfig} {redisReachable : Bool}
    {checks : HealthChecks} {runtimes : List RouteRuntime} {actions : List SystemAction}
    {index : Nat} {thread : Thread effects Incoming Response}
    (hthread : (systemAfter decode config redisReachable checks runtimes
      actions).pool.threads[index]? = some thread)
    {earlier round after : List (Event effects)}
    (hhistory : thread.history = earlier ++ round ++ after) {event : Event effects}
    (hevent : event ∈ round) {holds : System → Prop}
    (hholds : ∀ past input, (World.answer input (systemAfter decode config redisReachable checks
      runtimes past).pool.state event.1).1 = event.2 →
        holds (systemAfter decode config redisReachable checks runtimes past)) :
    During decode config redisReachable checks runtimes actions index earlier
      (earlier ++ round) holds := by
  obtain ⟨first, second, rfl⟩ := List.append_of_mem hevent
  have hsplit : thread.history = (earlier ++ first) ++ event :: (second ++ after) := by
    rw [hhistory]
    simp
  obtain ⟨past, rest, input, caller, hpast, hcaller, hbefore, hanswer⟩ :=
    exists_moment actions hthread hsplit
  refine ⟨past, rest, caller, hpast, hcaller, ?_, ?_, hholds past input hanswer⟩
  · rw [hbefore]
    exact List.prefix_append _ _
  · rw [hbefore, ← List.append_assoc]
    exact List.prefix_append _ _

/-- One request, beside the first probe of its upstream, up to the result of its call. -/
def watchedSend : List SystemAction :=
  [.arrive echoIncoming, .move 0 .poll, .move 0 .tick, .move 0 (.finish (.error ⟨false⟩)),
    .pass (Duration.fromSecs 5), .move 0 .tick,
    .move 0 (.finish (.ok ⟨.ok, [], ⟨[], true⟩⟩))] ++ List.replicate 13 (.advance 0 {})

def echoChecks : HealthChecks := fun _ => some { path := "/health" }

def echoRuntimes : List RouteRuntime := runtimesOf (.build { routes := [echoRoute] } false)

theorem watchedSend_sends :
    ∃ thread, (systemAfter noTokens { routes := [echoRoute] } false echoChecks echoRuntimes
        watchedSend).pool.threads[0]? = some thread ∧
      ∃ request result, thread.history[11]? = some ⟨.send ⟨0, 0⟩ request, result⟩ :=
  ⟨_, rfl, _, _, rfl⟩

end Health
end Gateway
end ApiGateway
