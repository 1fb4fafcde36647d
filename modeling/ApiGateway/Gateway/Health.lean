import ApiGateway.Gateway.World
import ApiGateway.Library.Ticker

/-!
# Active health checks

One task per upstream of every route that configures a health check.  A task waits for its
ticker or for the shutdown, sends one request when the ticker is due, and writes the health
flag of its upstream when the answer is there.  `run` spawns the tasks, waits for the
shutdown and then for every task in turn.

`System` runs these tasks beside the request handlers, over the cells and the clock they
share.  `system_refines_gateway` says that nothing new can happen to the handlers: a run
of the system is, as far as they are concerned, a run of `gatewayAfter` whose probes are the
reports of the tasks.

The health check sections are given beside the configuration, by the position of the route.
-/

namespace ApiGateway
namespace Gateway

open Library Core

structure HealthCheckConfig where
  path : String
  intervalSecs : UInt64 := 5
  timeoutMs : UInt64 := 2000

/-- The health check section of the route at each position. -/
abbrev HealthChecks := RouteId → Option HealthCheckConfig

def isSuccess (status : StatusCode) : Bool := 200 ≤ status.code && status.code < 300

namespace Health

/-! ## One task -/

/-- What a spawned task owns. -/
structure ProbeTask where
  upstream : UpstreamId
  url : String
  interval : Duration
  interval_pos : 0 < interval
  timeout : Duration

/-- An interval of zero is taken as one second, a timeout below 100 ms as 100 ms. -/
def ProbeTask.new (hc : HealthCheckConfig) (id : UpstreamId) (upstream : Upstream) :
    ProbeTask where
  upstream := id
  url := upstream.url ++ hc.path
  interval := Duration.fromSecs (max hc.intervalSecs.toNat 1)
  interval_pos := Nat.mul_pos (by omega) (by omega)
  timeout := Duration.fromMillis (max hc.timeoutMs.toNat 100)

/-- The request of one probe. -/
def ProbeTask.request (task : ProbeTask) : OutgoingRequest where
  method := .get
  url := task.url
  headers := []
  body := []
  timeout := task.timeout

/-- A failed call and every status but a 2xx count as unhealthy. -/
def healthyReply : SendResult → Bool
  | .ok resp => isSuccess resp.status
  | .error _ => false

/-- Where the loop of a task stands. -/
inductive Phase where
  /-- Spawned, not polled yet: there is no ticker. -/
  | spawned
  | waiting (ticker : Ticker)
  /-- The probe is out.  The shutdown is not looked at here. -/
  | probing (ticker : Ticker)
  | ended

inductive Move where
  | poll
  | tick
  | stop
  | finish (reply : SendResult)

/-- One move of a task, if it can be made.  When the shutdown and the ticker are both ready,
`select!` takes either branch. -/
def ProbeTask.move (task : ProbeTask) (cancelled : Bool) (now : Instant) :
    Phase → Move → Option Phase
  | .spawned, .poll => some (.waiting (.interval task.interval task.interval_pos now))
  | .waiting ticker, .tick =>
      if ticker.ready now then some (.probing (ticker.tick now)) else none
  | .waiting _, .stop => if cancelled then some .ended else none
  | .probing ticker, .finish _ => some (.waiting ticker)
  | _, _ => none

/-- What the tasks have done, with the instant of each move. -/
inductive HealthEvent where
  | polled (upstream : UpstreamId) (now : Instant)
  | sent (upstream : UpstreamId) (request : OutgoingRequest) (now : Instant)
  | stopped (upstream : UpstreamId)
  | reported (upstream : UpstreamId) (healthy : Bool)

def ProbeTask.event (task : ProbeTask) (now : Instant) : Move → HealthEvent
  | .poll => .polled task.upstream now
  | .tick => .sent task.upstream task.request now
  | .stop => .stopped task.upstream
  | .finish reply => .reported task.upstream (healthyReply reply)

/-- The flag an event writes. -/
def HealthEvent.probe? : HealthEvent → Option Probe
  | .reported upstream healthy => some ⟨upstream, healthy⟩
  | _ => none

/-- The reports among the events, in order. -/
def reports (journal : List HealthEvent) : List Probe := journal.filterMap HealthEvent.probe?

/-! ## All tasks -/

structure RunningTask where
  task : ProbeTask
  phase : Phase

structure Monitor where
  tasks : List RunningTask
  /-- The shutdown token. -/
  cancelled : Bool
  /-- The number of handles that `run` has awaited. -/
  joined : Nat
  journal : List HealthEvent

/-- The tasks of one route: none without a health check section. -/
def probesOf (checks : HealthChecks) (runtime : RouteRuntime) : List ProbeTask :=
  match checks runtime.id with
  | none => []
  | some hc => runtime.balancer.upstreams.zipIdx.map fun entry =>
      .new hc ⟨runtime.id, entry.2⟩ entry.1

/-- The tasks in the order in which `run` spawns them; `runtimes` is the order in which the
route table is iterated. -/
def probeTasks (checks : HealthChecks) (runtimes : List RouteRuntime) : List ProbeTask :=
  runtimes.flatMap (probesOf checks)

/-- All tasks spawned, none polled. -/
def Monitor.start (checks : HealthChecks) (runtimes : List RouteRuntime) : Monitor where
  tasks := (probeTasks checks runtimes).map fun task => ⟨task, .spawned⟩
  cancelled := false
  joined := 0
  journal := []

/-- `run` looks at the handles once the token is cancelled, in order. -/
def Monitor.join (monitor : Monitor) : Monitor :=
  match monitor.cancelled, monitor.tasks[monitor.joined]? with
  | true, some ⟨_, .ended⟩ => { monitor with joined := monitor.joined + 1 }
  | _, _ => monitor

/-- `run` has returned.  Without handles it only waits for the token. -/
def Monitor.returned (monitor : Monitor) : Bool :=
  monitor.cancelled && monitor.joined == monitor.tasks.length

/-! ## Beside the handlers -/

structure System where
  pool : GatewayPool
  monitor : Monitor

inductive SystemAction where
  | arrive (incoming : Incoming)
  | advance (thread : Nat) (input : Input)
  | drop (thread : Nat)
  /-- Time passes. -/
  | pass (elapsed : Duration)
  /-- The token is cancelled. -/
  | shutdown
  | move (task : Nat) (move : Move)
  | join

/-- The pool when nothing but time passes. -/
def idle (pool : GatewayPool) (elapsed : Duration) : GatewayPool :=
  { pool with state := pool.state.tick elapsed }

/-- The pool after an event of a task. -/
def afterEvent (gateway : Server effects Incoming Input Probe World Response) (pool : GatewayPool)
    (event : HealthEvent) : GatewayPool :=
  match event.probe? with
  | some probe => pool.step gateway (.disturb probe)
  | none => pool

def System.step (gateway : Server effects Incoming Input Probe World Response)
    (system : System) : SystemAction → System
  | .arrive incoming => { system with pool := system.pool.step gateway (.arrive incoming) }
  | .advance thread input =>
      { system with pool := system.pool.step gateway (.advance thread input) }
  | .drop thread => { system with pool := system.pool.step gateway (.cancel thread) }
  | .pass elapsed => { system with pool := idle system.pool elapsed }
  | .shutdown => { system with monitor := { system.monitor with cancelled := true } }
  | .move index move =>
      match system.monitor.tasks[index]? with
      | none => system
      | some running =>
          let now := system.pool.state.now
          match running.task.move system.monitor.cancelled now running.phase move with
          | none => system
          | some phase =>
              { pool := afterEvent gateway system.pool (running.task.event now move)
                monitor :=
                  { system.monitor with
                    tasks := system.monitor.tasks.set index ⟨running.task, phase⟩
                    journal := system.monitor.journal ++ [running.task.event now move] } }
  | .join => { system with monitor := system.monitor.join }

/-- The gateway with its health checks, after a run of any length. -/
def systemAfter (decode : TokenDecoder) (config : GatewayConfig) (redisReachable : Bool)
    (checks : HealthChecks) (runtimes : List RouteRuntime) (actions : List SystemAction) :
    System :=
  run (fun system action => ((), system.step (server decode (.build config redisReachable)) action))
    ⟨.initial World.initial, .start checks runtimes⟩ actions

end Health
end Gateway
end ApiGateway
