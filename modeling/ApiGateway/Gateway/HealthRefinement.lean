import ApiGateway.Gateway.Health

/-!
# The health checks as seen by the handlers

The model of the request path lets a probe write any health flag at any time.  Here the flags
are written by the tasks of `run`, on the clock of the handlers.  Every run of the system is
a run of the request path in which the reports are the probes, in their order, and in
which the time that passes between calls is part of the next call.

From there on, what is proved of all runs of the request path holds beside the health checks.
What the system adds is where the probes come from: the flag of an upstream is what the
last probe of that upstream found.
-/

namespace ApiGateway
namespace Gateway
namespace Health

open Library Core

variable {decode : TokenDecoder} {config : GatewayConfig} {redisReachable : Bool}
  {checks : HealthChecks} {runtimes : List RouteRuntime}

/-! ## Steps and runs -/

/-- A move changes nothing, or it is a move that the task can make now. -/
theorem step_move_cases (gateway : Server effects Incoming Input Probe World Response)
    (system : System) (index : Nat) (move : Move) :
    (∃ running phase, system.monitor.tasks[index]? = some running ∧
      running.task.move system.monitor.cancelled system.pool.state.now running.phase move =
        some phase ∧
      system.step gateway (.move index move) =
        { pool := afterEvent gateway system.pool (running.task.event system.pool.state.now move)
          monitor :=
            { system.monitor with
              tasks := system.monitor.tasks.set index ⟨running.task, phase⟩
              journal := system.monitor.journal ++
                [running.task.event system.pool.state.now move] } }) ∨
    system.step gateway (.move index move) = system := by
  simp only [System.step]
  split
  · exact Or.inr rfl
  · rename_i running hrunning
    split
    · exact Or.inr rfl
    · rename_i phase hphase
      exact Or.inl ⟨running, phase, hrunning, hphase, rfl⟩

/-- A property of the first system that every action keeps holds after every run. -/
theorem systemAfter_induction (invariant : System → Prop)
    (hinit : invariant ⟨.initial World.initial, .start checks runtimes⟩)
    (hstep : ∀ system action, invariant system →
      invariant (system.step (server decode (.build config redisReachable)) action))
    (actions : List SystemAction) :
    invariant (systemAfter decode config redisReachable checks runtimes actions) :=
  run_induction (fun _ => True) (fun _ system => invariant system) (fun _ _ _ => trivial) hinit
    (fun _ system action _ h => hstep system action h) actions trivial

theorem systemAfter_append (actions more : List SystemAction) :
    systemAfter decode config redisReachable checks runtimes (actions ++ more) =
      run (fun system action =>
          ((), system.step (server decode (.build config redisReachable)) action))
        (systemAfter decode config redisReachable checks runtimes actions) more :=
  run_append _ _ _ _

theorem systemAfter_snoc (actions : List SystemAction) (action : SystemAction) :
    systemAfter decode config redisReachable checks runtimes (actions ++ [action]) =
      (systemAfter decode config redisReachable checks runtimes actions).step
        (server decode (.build config redisReachable)) action :=
  systemAfter_append actions [action]

/-! ## Time that passes before an action -/

theorem dropHandler_tick (history : List (Event effects)) (elapsed : Duration) (world : World) :
    dropHandler history (world.tick elapsed) = (dropHandler history world).tick elapsed := by
  unfold dropHandler
  split <;> rfl

section Idle

variable (decode : TokenDecoder) (state : GatewayState) (pool : GatewayPool) (elapsed : Duration)

theorem idle_arrive (incoming : Incoming) :
    (idle pool elapsed).step (server decode state) (.arrive incoming) =
      idle (pool.step (server decode state) (.arrive incoming)) elapsed := rfl

theorem idle_advance (thread : Nat) (input : Input) :
    (idle pool elapsed).step (server decode state) (.advance thread input) =
      pool.step (server decode state)
        (.advance thread { input with elapsed := elapsed + input.elapsed }) ∨
    (idle pool elapsed).step (server decode state) (.advance thread input) =
      idle pool elapsed := by
  simp only [Pool.step, idle]
  split
  · exact Or.inr rfl
  · split
    · exact Or.inr rfl
    · refine Or.inl ?_
      simp only [server, interpreter, World.answer_tick]

theorem idle_cancel (thread : Nat) :
    (idle pool elapsed).step (server decode state) (.cancel thread) =
      idle (pool.step (server decode state) (.cancel thread)) elapsed := by
  simp only [Pool.step, idle]
  split
  · rfl
  · split
    · rfl
    · split
      · simp only [server, dropHandler_tick]
      · rfl

theorem idle_disturb (probe : Probe) :
    (idle pool elapsed).step (server decode state) (.disturb probe) =
      idle (pool.step (server decode state) (.disturb probe)) elapsed := rfl

end Idle

/-! ## Refinement -/

/-- The probes of a run of the request path. -/
def probesIn (actions : List GatewayAction) : List Probe :=
  actions.filterMap fun action =>
    match action with
    | .disturb probe => some probe
    | _ => none

/-- The handlers of the system stand where a run of the request path takes them, up to time
that has passed since, and the probes of that run are the reports of the tasks. -/
def Refines (decode : TokenDecoder) (config : GatewayConfig) (redisReachable : Bool)
    (system : System) : Prop :=
  ∃ abstract elapsed,
    system.pool = idle (gatewayAfter decode config redisReachable abstract) elapsed ∧
      probesIn abstract = reports system.monitor.journal

theorem gatewayAfter_snoc (actions : List GatewayAction) (action : GatewayAction) :
    gatewayAfter decode config redisReachable (actions ++ [action]) =
      (gatewayAfter decode config redisReachable actions).step
        (server decode (.build config redisReachable)) action :=
  Pool.after_snoc _ _ _ _

theorem probesIn_snoc (actions : List GatewayAction) (action : GatewayAction) :
    probesIn (actions ++ [action]) = probesIn actions ++ probesIn [action] :=
  List.filterMap_append

theorem reports_snoc (journal : List HealthEvent) (event : HealthEvent) :
    reports (journal ++ [event]) = reports journal ++ event.probe?.toList := by
  unfold reports
  rw [List.filterMap_append]
  cases h : event.probe? <;> simp [h]

/-- An event of a task is a probe of the request path when it is a report, and is not
seen there otherwise. -/
theorem Refines.event {pool : GatewayPool} {monitor monitor' : Monitor} {event : HealthEvent}
    (h : Refines decode config redisReachable ⟨pool, monitor⟩)
    (hjournal : monitor'.journal = monitor.journal ++ [event]) :
    Refines decode config redisReachable
      ⟨afterEvent (server decode (.build config redisReachable)) pool event, monitor'⟩ := by
  obtain ⟨abstract, elapsed, hpool, hprobes⟩ := h
  simp only at hpool hprobes
  cases hevent : event.probe? with
  | none =>
      refine ⟨abstract, elapsed, ?_, ?_⟩
      · simp only [afterEvent, hevent, hpool]
      · simp [hjournal, reports_snoc, hevent, hprobes]
  | some probe =>
      refine ⟨abstract ++ [.disturb probe], elapsed, ?_, ?_⟩
      · simp only [afterEvent, hevent, hpool, gatewayAfter_snoc, idle_disturb]
      · rw [probesIn_snoc, hprobes, hjournal, reports_snoc, hevent]
        rfl

theorem Refines.step {system : System} (h : Refines decode config redisReachable system)
    (action : SystemAction) :
    Refines decode config redisReachable
      (system.step (server decode (.build config redisReachable)) action) := by
  obtain ⟨abstract, elapsed, hpool, hprobes⟩ := h
  cases action with
  | arrive incoming =>
      refine ⟨abstract ++ [.arrive incoming], elapsed, ?_, ?_⟩
      · rw [gatewayAfter_snoc, ← idle_arrive, ← hpool]
        rfl
      · rw [probesIn_snoc, hprobes]
        exact List.append_nil _
  | advance thread input =>
      rcases idle_advance decode (.build config redisReachable)
        (gatewayAfter decode config redisReachable abstract) elapsed thread input with hcall | hnone
      · -- The call takes up the time that has passed before it.
        refine ⟨abstract ++ [.advance thread { input with elapsed := elapsed + input.elapsed }],
          0, ?_, ?_⟩
        · rw [gatewayAfter_snoc, ← hcall, ← hpool]
          rfl
        · rw [probesIn_snoc, hprobes]
          exact List.append_nil _
      · refine ⟨abstract, elapsed, ?_, hprobes⟩
        rw [← hnone, ← hpool]
        rfl
  | drop thread =>
      refine ⟨abstract ++ [.cancel thread], elapsed, ?_, ?_⟩
      · rw [gatewayAfter_snoc, ← idle_cancel, ← hpool]
        rfl
      · rw [probesIn_snoc, hprobes]
        exact List.append_nil _
  | pass more =>
      refine ⟨abstract, elapsed + more, ?_, hprobes⟩
      show idle system.pool more = _
      rw [hpool]
      simp only [idle, World.tick_tick]
  | shutdown => exact ⟨abstract, elapsed, hpool, hprobes⟩
  | move index move =>
      rcases step_move_cases (server decode (.build config redisReachable)) system index move with
        ⟨running, phase, -, -, hstep⟩ | hstep
      · have hbefore : Refines decode config redisReachable ⟨system.pool, system.monitor⟩ :=
          ⟨abstract, elapsed, hpool, hprobes⟩
        rw [hstep]
        exact hbefore.event rfl
      · rw [hstep]
        exact ⟨abstract, elapsed, hpool, hprobes⟩
  | join =>
      refine ⟨abstract, elapsed, hpool, ?_⟩
      have hjournal : system.monitor.join.journal = system.monitor.journal := by
        unfold Monitor.join
        split <;> rfl
      exact hprobes.trans (congrArg reports hjournal.symm)

theorem refines_after (actions : List SystemAction) :
    Refines decode config redisReachable
      (systemAfter decode config redisReachable checks runtimes actions) :=
  systemAfter_induction (Refines decode config redisReachable) ⟨[], 0, rfl, rfl⟩
    (fun _ action h => Refines.step h action) actions

/-- Every run of the gateway with its health checks is, to the handlers, a run of the
request path with the reports as its probes. -/
theorem system_refines_gateway (decode : TokenDecoder) (config : GatewayConfig)
    (redisReachable : Bool) (checks : HealthChecks) (runtimes : List RouteRuntime)
    (actions : List SystemAction) :
    ∃ abstract elapsed,
      (systemAfter decode config redisReachable checks runtimes actions).pool =
        idle (gatewayAfter decode config redisReachable abstract) elapsed ∧
      probesIn abstract =
        reports (systemAfter decode config redisReachable checks runtimes actions).monitor.journal :=
  refines_after actions

/-! ## Health flags -/

/-- What the last of the probes of an upstream found; an upstream that has not been probed
counts as healthy. -/
def verdict (probes : List Probe) (upstream : UpstreamId) : Bool :=
  ((probes.filter fun probe => probe.upstream = upstream).getLast?.map Probe.healthy).getD true

theorem verdict_snoc (probes : List Probe) (probe : Probe) (upstream : UpstreamId) :
    verdict (probes ++ [probe]) upstream =
      if probe.upstream = upstream then probe.healthy else verdict probes upstream := by
  unfold verdict
  rw [List.filter_append]
  by_cases h : probe.upstream = upstream
  · simp [h]
  · simp [h]

theorem cellAfter_healthy (upstream : UpstreamId) (cell : UpstreamCell) (op : Op) :
    (World.cellAfter upstream cell op).healthy = cell.healthy := by
  cases op with
  | guardNew id | guardDrop id | allowAt id now | recordSuccess id | recordFailureAt id _ now =>
      simp only [World.cellAfter]
      split <;> rfl
  | _ => rfl

theorem dropHandler_healthy (history : List (Event effects)) (world : World)
    (upstream : UpstreamId) :
    ((dropHandler history world).upstream upstream).healthy =
      (world.upstream upstream).healthy := by
  unfold dropHandler
  split
  · rename_i id _
    have hanswer := World.upstream_answer {} world (.guardDrop id) upstream
    exact (congrArg UpstreamCell.healthy hanswer).trans (cellAfter_healthy _ _ _)
  · rfl

theorem report_healthy (probe : Probe) (world : World) (upstream : UpstreamId) :
    ((probe.report world).upstream upstream).healthy =
      if probe.upstream = upstream then probe.healthy
      else (world.upstream upstream).healthy := by
  rw [Probe.report, World.upstream_setUpstream]
  split <;> rfl

/-- No handler writes a health flag: it is what the last probe says. -/
theorem healthy_gatewayAfter (actions : List GatewayAction) (upstream : UpstreamId) :
    ((gatewayAfter decode config redisReachable actions).state.upstream upstream).healthy =
      verdict (probesIn actions) upstream := by
  induction actions using List.reverseRecOn with
  | nil => rfl
  | append_singleton actions action ih =>
      rw [gatewayAfter_snoc, probesIn_snoc]
      set pool := gatewayAfter decode config redisReachable actions with hpool
      cases action with
      | disturb probe =>
          refine (report_healthy probe pool.state upstream).trans ?_
          rw [ih]
          exact (verdict_snoc _ probe upstream).symm
      | arrive incoming =>
          show (pool.state.upstream upstream).healthy = verdict (probesIn actions ++ []) upstream
          rw [List.append_nil, ih]
      | advance thread input =>
          show _ = verdict (probesIn actions ++ []) upstream
          rw [List.append_nil, ← ih]
          simp only [Pool.step]
          split
          · rfl
          · split
            · rfl
            · rename_i op _ _
              have hanswer := World.upstream_answer input pool.state op upstream
              exact (congrArg UpstreamCell.healthy hanswer).trans (cellAfter_healthy _ _ _)
      | cancel thread =>
          show _ = verdict (probesIn actions ++ []) upstream
          rw [List.append_nil, ← ih]
          simp only [Pool.step]
          split
          · rfl
          · split
            · rfl
            · split
              · exact dropHandler_healthy _ _ _
              · rfl

/-- The flags are those that the reports in the journal left. -/
theorem healthy_systemAfter (actions : List SystemAction) (upstream : UpstreamId) :
    ((systemAfter decode config redisReachable checks runtimes
        actions).pool.state.upstream upstream).healthy =
      verdict (reports (systemAfter decode config redisReachable checks runtimes
        actions).monitor.journal) upstream := by
  have hrefines : Refines decode config redisReachable
      (systemAfter decode config redisReachable checks runtimes actions) := refines_after actions
  obtain ⟨abstract, elapsed, hpool, hprobes⟩ := hrefines
  rw [hpool, ← hprobes]
  exact healthy_gatewayAfter abstract upstream

/-- The tasks never change, whatever they do. -/
theorem tasks_step (gateway : Server effects Incoming Input Probe World Response)
    (system : System) (action : SystemAction) :
    (system.step gateway action).monitor.tasks.map RunningTask.task =
      system.monitor.tasks.map RunningTask.task := by
  cases action with
  | move index move =>
      rcases step_move_cases gateway system index move with
        ⟨running, phase, hrunning, -, hstep⟩ | hstep
      · rw [hstep, List.map_set]
        refine List.ext_getElem? fun other => ?_
        rw [List.getElem?_set]
        split
        · rename_i heq
          subst heq
          obtain ⟨hlt, hget⟩ := List.getElem?_eq_some_iff.mp hrunning
          simp [hlt, hget]
        · rfl
      · rw [hstep]
  | join =>
      show system.monitor.join.tasks.map _ = _
      unfold Monitor.join
      split <;> rfl
  | _ => rfl

theorem tasks_systemAfter (actions : List SystemAction) :
    (systemAfter decode config redisReachable checks runtimes actions).monitor.tasks.map
      RunningTask.task = probeTasks checks runtimes := by
  refine systemAfter_induction (fun system =>
    system.monitor.tasks.map RunningTask.task = probeTasks checks runtimes) ?_ ?_ actions
  · simp [Monitor.start, Function.comp_def]
  · intro system action h
    exact (tasks_step _ system action).trans h

end Health
end Gateway
end ApiGateway
