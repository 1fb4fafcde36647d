import ApiGateway.Gateway.HealthTasks
import ApiGateway.Library.Tally

/-!
# The shutdown of the health checks

The token, the tasks and `run` are three parties.  A task that is waiting may take the
shutdown or one more tick; a task whose probe is out does not look at the token; `run` awaits
the tasks in order after the token.

`quiet_after_return` is the safety of this protocol: when `run` has returned, every task has
ended, and no later step of anything changes a health flag.  `return_within_reach` is its
progress: once the token is cancelled, the tasks and `run` can always get to the return by
moves of their own, at most three for each task, whatever the probes that are out are answered.
-/

namespace ApiGateway
namespace Gateway
namespace Health

open Library Core

variable {decode : TokenDecoder} {config : GatewayConfig} {redisReachable : Bool}
  {checks : HealthChecks} {runtimes : List RouteRuntime}

/-! ## Safety -/

/-- The handles that `run` has awaited are those of ended tasks. -/
def JoinsEnded (monitor : Monitor) : Prop :=
  ∀ index < monitor.joined, ∃ task, monitor.tasks[index]? = some ⟨task, .ended⟩

theorem join_cases (monitor : Monitor) :
    (monitor.cancelled = true ∧ (∃ task, monitor.tasks[monitor.joined]? = some ⟨task, .ended⟩) ∧
      monitor.join = { monitor with joined := monitor.joined + 1 }) ∨
    monitor.join = monitor := by
  unfold Monitor.join
  split
  · rename_i task hcancelled htask
    exact Or.inl ⟨hcancelled, ⟨task, htask⟩, rfl⟩
  · exact Or.inr rfl

/-- An ended task makes no move. -/
theorem phase_ne_ended {task : ProbeTask} {cancelled : Bool} {now : Instant}
    {phase phase' : Phase} {move : Move} (h : task.move cancelled now phase move = some phase') :
    phase ≠ .ended := by
  rintro rfl
  cases h

theorem JoinsEnded.step (gateway : Server effects Incoming Input Probe World Response)
    {system : System} (h : JoinsEnded system.monitor) (action : SystemAction) :
    JoinsEnded (system.step gateway action).monitor := by
  cases action with
  | move index move =>
      rcases step_move_cases gateway system index move with
        ⟨running, phase, hrunning, hmove, hstep⟩ | hstep
      · rw [hstep]
        intro other hother
        obtain ⟨task, htask⟩ := h other hother
        have hne : index ≠ other := by
          rintro rfl
          rw [htask] at hrunning
          obtain rfl := Option.some.inj hrunning
          exact phase_ne_ended hmove rfl
        exact ⟨task, (List.getElem?_set_ne hne).trans htask⟩
      · rw [hstep]
        exact h
  | join =>
      show JoinsEnded system.monitor.join
      rcases join_cases system.monitor with ⟨-, hended, hjoin⟩ | hjoin
      · rw [hjoin]
        intro index hindex
        rcases Nat.lt_succ_iff_lt_or_eq.mp hindex with hlt | rfl
        · exact h index hlt
        · exact hended
      · rw [hjoin]
        exact h
  | _ => exact h

theorem joinsEnded_after (actions : List SystemAction) :
    JoinsEnded (systemAfter decode config redisReachable checks runtimes actions).monitor :=
  systemAfter_induction (fun system => JoinsEnded system.monitor)
    (fun _ h => absurd h (Nat.not_lt_zero _)) (fun _ action h => h.step _ action) actions

/-- When `run` has returned, every task has ended. -/
theorem ended_of_returned {monitor : Monitor} (hjoins : JoinsEnded monitor)
    (hreturned : monitor.returned = true) {index : Nat} {running : RunningTask}
    (hrunning : monitor.tasks[index]? = some running) : running.phase = .ended := by
  simp only [Monitor.returned, Bool.and_eq_true, beq_iff_eq] at hreturned
  have hlt := (List.getElem?_eq_some_iff.mp hrunning).1
  obtain ⟨task, htask⟩ := hjoins index (hreturned.2 ▸ hlt)
  rw [htask] at hrunning
  rw [← Option.some.inj hrunning]

/-- A step after the return leaves the tasks and their journal alone. -/
theorem step_of_returned (gateway : Server effects Incoming Input Probe World Response)
    {system : System} (hjoins : JoinsEnded system.monitor)
    (hreturned : system.monitor.returned = true) (action : SystemAction) :
    (system.step gateway action).monitor.returned = true ∧
      (system.step gateway action).monitor.journal = system.monitor.journal := by
  cases action with
  | move index move =>
      rcases step_move_cases gateway system index move with
        ⟨running, phase, hrunning, hmove, -⟩ | hstep
      · exact absurd (ended_of_returned hjoins hreturned hrunning) (phase_ne_ended hmove)
      · rw [hstep]
        exact ⟨hreturned, rfl⟩
  | join =>
      show system.monitor.join.returned = true ∧ system.monitor.join.journal = _
      rcases join_cases system.monitor with ⟨-, ⟨task, htask⟩, -⟩ | hjoin
      · -- There is no handle left.
        simp only [Monitor.returned, Bool.and_eq_true, beq_iff_eq] at hreturned
        rw [hreturned.2, List.getElem?_eq_none (Nat.le_refl _)] at htask
        cases htask
      · rw [hjoin]
        exact ⟨hreturned, rfl⟩
  | shutdown =>
      refine ⟨?_, rfl⟩
      simp only [Monitor.returned, Bool.and_eq_true] at hreturned
      exact Bool.and_eq_true_iff.mpr ⟨rfl, hreturned.2⟩
  | _ => exact ⟨hreturned, rfl⟩

theorem journal_after_return {actions : List SystemAction}
    (hreturned :
      (systemAfter decode config redisReachable checks runtimes actions).monitor.returned = true)
    (more : List SystemAction) :
    (systemAfter decode config redisReachable checks runtimes
        (actions ++ more)).monitor.returned = true ∧
      (systemAfter decode config redisReachable checks runtimes
          (actions ++ more)).monitor.journal =
        (systemAfter decode config redisReachable checks runtimes actions).monitor.journal := by
  induction more using List.reverseRecOn with
  | nil => simpa using hreturned
  | append_singleton more action ih =>
      rw [← List.append_assoc, systemAfter_snoc]
      obtain ⟨hstep, hjournal⟩ := step_of_returned (server decode (.build config redisReachable))
        (joinsEnded_after _) ih.1 action
      exact ⟨hstep, hjournal.trans ih.2⟩

/-- Once `run` has returned, it stays so, no task makes another move, and no health flag
ever changes, whatever the handlers, the clock and the token do. -/
theorem quiet_after_return (decode : TokenDecoder) (config : GatewayConfig)
    (redisReachable : Bool) (checks : HealthChecks) (runtimes : List RouteRuntime)
    (actions more : List SystemAction)
    (hreturned :
      (systemAfter decode config redisReachable checks runtimes actions).monitor.returned = true) :
    (∀ running ∈ (systemAfter decode config redisReachable checks runtimes
        actions).monitor.tasks, running.phase = .ended) ∧
      (systemAfter decode config redisReachable checks runtimes
        (actions ++ more)).monitor.journal =
        (systemAfter decode config redisReachable checks runtimes actions).monitor.journal ∧
      ∀ upstream,
        ((systemAfter decode config redisReachable checks runtimes
            (actions ++ more)).pool.state.upstream upstream).healthy =
          ((systemAfter decode config redisReachable checks runtimes
            actions).pool.state.upstream upstream).healthy := by
  have hjournal := (journal_after_return hreturned more).2
  refine ⟨fun running hrunning => ?_, hjournal, fun upstream => ?_⟩
  · obtain ⟨index, hindex⟩ := List.mem_iff_getElem?.mp hrunning
    exact ended_of_returned (joinsEnded_after actions) hreturned hindex
  · rw [healthy_systemAfter, healthy_systemAfter, hjournal]

/-- The task is told to stop while its probe is out, and stops after the answer. -/
def stoppedRun : List SystemAction :=
  [.move 0 .poll, .move 0 .tick, .shutdown, .move 0 .stop, .join,
    .move 0 (.finish (.error ⟨false⟩)), .move 0 .stop, .join]

/-- A task that ends late is awaited, and what it reported last stays. -/
theorem quiet_after_return_late :
    (systemAfter (fun _ _ _ => none) probedConfig false probedChecks probedRuntimes
        stoppedRun).monitor.returned = true ∧
      ((systemAfter (fun _ _ _ => none) probedConfig false probedChecks probedRuntimes
          (stoppedRun ++ [.pass (Duration.fromSecs 9), .move 0 .tick])).pool.state.upstream
            ⟨0, 0⟩).healthy = false := by
  have hreturned : (systemAfter (fun _ _ _ => none) probedConfig false probedChecks
      probedRuntimes stoppedRun).monitor.returned = true := rfl
  have hquiet := quiet_after_return (fun _ _ _ => none) probedConfig false probedChecks
    probedRuntimes stoppedRun [.pass (Duration.fromSecs 9), .move 0 .tick] hreturned
  exact ⟨hreturned, hquiet.2.2 ⟨0, 0⟩⟩

/-! ## Progress -/

/-- The moves a task has to make before it can be awaited. -/
def Phase.distance : Phase → Int
  | .spawned => 2
  | .waiting _ => 1
  | .probing _ => 2
  | .ended => 0

/-- The moves that are left until `run` returns. -/
def outstanding (monitor : Monitor) : Int :=
  (monitor.tasks.map fun running => running.phase.distance).sum +
    (monitor.tasks.length - monitor.joined)

/-- The actions that lead to the return: no tick, no time, and no handler is among them.  The
answers to the probes that are out are given. -/
def Closing (replies : Nat → SendResult) : SystemAction → Prop
  | .join => True
  | .move _ .poll => True
  | .move _ .stop => True
  | .move task (.finish reply) => reply = replies task
  | _ => False

theorem Phase.distance_bounds (phase : Phase) : 0 ≤ phase.distance ∧ phase.distance ≤ 2 := by
  cases phase <;> simp [Phase.distance]

/-- Every task that has not ended has a closing move once the token is cancelled. -/
theorem exists_closing_move (replies : Nat → SendResult) (index : Nat) (task : ProbeTask)
    (now : Instant) {phase : Phase} (hphase : phase ≠ .ended) :
    ∃ move phase', task.move true now phase move = some phase' ∧
      phase'.distance = phase.distance - 1 ∧ Closing replies (.move index move) := by
  cases phase with
  | spawned => exact ⟨.poll, _, rfl, rfl, trivial⟩
  | waiting ticker => exact ⟨.stop, .ended, rfl, rfl, trivial⟩
  | probing ticker => exact ⟨.finish (replies index), .waiting ticker, rfl, rfl, rfl⟩
  | ended => exact absurd rfl hphase

theorem step_move_eq (gateway : Server effects Incoming Input Probe World Response)
    {system : System} {index : Nat} {running : RunningTask} {phase : Phase} {move : Move}
    (hrunning : system.monitor.tasks[index]? = some running)
    (hmove : running.task.move system.monitor.cancelled system.pool.state.now running.phase move =
      some phase) :
    (system.step gateway (.move index move)).monitor =
      { system.monitor with
        tasks := system.monitor.tasks.set index ⟨running.task, phase⟩
        journal := system.monitor.journal ++
          [running.task.event system.pool.state.now move] } := by
  simp only [System.step, hrunning, hmove]

/-- Until the return there is always a closing action, and it takes one move off. -/
theorem exists_closing_step (gateway : Server effects Incoming Input Probe World Response)
    (replies : Nat → SendResult) {system : System} (hcancelled : system.monitor.cancelled = true)
    (hjoined : system.monitor.joined ≤ system.monitor.tasks.length)
    (hreturned : system.monitor.returned = false) :
    ∃ action, Closing replies action ∧
      (system.step gateway action).monitor.cancelled = true ∧
      (system.step gateway action).monitor.joined ≤
        (system.step gateway action).monitor.tasks.length ∧
      outstanding (system.step gateway action).monitor = outstanding system.monitor - 1 := by
  have hlt : system.monitor.joined < system.monitor.tasks.length := by
    refine lt_of_le_of_ne hjoined fun heq => ?_
    simp [Monitor.returned, hcancelled, heq] at hreturned
  -- The next handle to await decides: its task has ended, or it has a move to make.
  obtain ⟨running, hrunning⟩ : ∃ running, system.monitor.tasks[system.monitor.joined]? =
      some running := ⟨_, List.getElem?_eq_getElem hlt⟩
  by_cases hended : running.phase = .ended
  · have hjoin : system.monitor.join =
        { system.monitor with joined := system.monitor.joined + 1 } := by
      obtain ⟨task, phase⟩ := running
      obtain rfl : phase = .ended := hended
      simp only [Monitor.join, hcancelled, hrunning]
    refine ⟨.join, trivial, ?_⟩
    show system.monitor.join.cancelled = true ∧ _ ∧ outstanding system.monitor.join = _
    show _ ∧ system.monitor.join.joined ≤ system.monitor.join.tasks.length ∧ _
    rw [hjoin]
    refine ⟨hcancelled, hlt, ?_⟩
    simp only [outstanding]
    omega
  · obtain ⟨move, phase, hmove, hdistance, hclosing⟩ := exists_closing_move replies
      system.monitor.joined running.task system.pool.state.now hended
    rw [← hcancelled] at hmove
    refine ⟨.move system.monitor.joined move, hclosing, ?_⟩
    rw [step_move_eq gateway hrunning hmove]
    refine ⟨hcancelled, ?_, ?_⟩
    · simpa using hjoined
    · have hset := sum_map_set (fun running : RunningTask => running.phase.distance)
        system.monitor.tasks hrunning ⟨running.task, phase⟩
      simp only [outstanding, List.length_set] at hset ⊢
      omega

theorem outstanding_bounds (monitor : Monitor) (hjoined : monitor.joined ≤ monitor.tasks.length) :
    0 ≤ outstanding monitor ∧ outstanding monitor ≤ 3 * monitor.tasks.length := by
  have hsum : 0 ≤ (monitor.tasks.map fun running => running.phase.distance).sum ∧
      (monitor.tasks.map fun running => running.phase.distance).sum ≤
        2 * monitor.tasks.length := by
    induction monitor.tasks with
    | nil => simp
    | cons running tasks ih =>
        have hbounds := running.phase.distance_bounds
        simp only [List.map_cons, List.sum_cons, List.length_cons, Nat.cast_add, Nat.cast_one]
        omega
  simp only [outstanding]
  omega

/-- From a cancelled system the return is reached by as many closing actions as are
outstanding. -/
theorem exists_closing_run (gateway : Server effects Incoming Input Probe World Response)
    (replies : Nat → SendResult) (moves : Nat) (system : System)
    (hcancelled : system.monitor.cancelled = true)
    (hjoined : system.monitor.joined ≤ system.monitor.tasks.length)
    (hmoves : outstanding system.monitor = moves) :
    ∃ more, (∀ action ∈ more, Closing replies action) ∧ more.length ≤ moves ∧
      (run (fun system action => ((), System.step gateway system action)) system
        more).monitor.returned = true := by
  -- One closing action at a time; when nothing is outstanding, nothing but the return is left.
  induction moves generalizing system with
  | zero =>
      refine ⟨[], by simp, Nat.le_refl _, ?_⟩
      by_contra hreturned
      obtain ⟨action, -, -, hjoined', hless⟩ := exists_closing_step gateway replies hcancelled
        hjoined (Bool.eq_false_iff.mpr hreturned)
      have hbounds := outstanding_bounds _ hjoined'
      omega
  | succ moves ih =>
      by_cases hreturned : system.monitor.returned = true
      · exact ⟨[], by simp, Nat.zero_le _, hreturned⟩
      · obtain ⟨action, hclosing, hcancelled', hjoined', hless⟩ := exists_closing_step gateway
          replies hcancelled hjoined (Bool.eq_false_iff.mpr hreturned)
        obtain ⟨more, hmore, hlength, hreturn⟩ := ih (system.step gateway action) hcancelled'
          hjoined' (by omega)
        refine ⟨action :: more, ?_, Nat.succ_le_succ hlength, hreturn⟩
        intro other hother
        rcases List.mem_cons.mp hother with rfl | hlater
        · exact hclosing
        · exact hmore other hlater

theorem joined_le_of_joinsEnded {monitor : Monitor} (h : JoinsEnded monitor) :
    monitor.joined ≤ monitor.tasks.length := by
  by_contra hlt
  obtain ⟨task, htask⟩ := h monitor.tasks.length (by omega)
  rw [List.getElem?_eq_none (Nat.le_refl _)] at htask
  cases htask

/-- Once the token is cancelled, `run` can return from every reachable state, whatever the
probes that are out are answered: the tasks and `run` need at most three moves for each task,
and none of them waits for a tick, for time to pass or for a handler. -/
theorem return_within_reach (decode : TokenDecoder) (config : GatewayConfig)
    (redisReachable : Bool) (checks : HealthChecks) (runtimes : List RouteRuntime)
    (actions : List SystemAction) (replies : Nat → SendResult)
    (hcancelled :
      (systemAfter decode config redisReachable checks runtimes actions).monitor.cancelled = true) :
    ∃ more, (∀ action ∈ more, Closing replies action) ∧
      more.length ≤ 3 * (probeTasks checks runtimes).length ∧
      (systemAfter decode config redisReachable checks runtimes
        (actions ++ more)).monitor.returned = true := by
  set system := systemAfter decode config redisReachable checks runtimes actions with hsystem
  have hjoins : JoinsEnded system.monitor := joinsEnded_after actions
  have hjoined := joined_le_of_joinsEnded hjoins
  have hbounds := outstanding_bounds system.monitor hjoined
  obtain ⟨more, hclosing, hlength, hreturned⟩ := exists_closing_run
    (server decode (.build config redisReachable)) replies (outstanding system.monitor).toNat system
    hcancelled hjoined (by omega)
  have htasks : system.monitor.tasks.map RunningTask.task = probeTasks checks runtimes :=
    tasks_systemAfter actions
  have hsize : system.monitor.tasks.length = (probeTasks checks runtimes).length := by
    rw [← htasks, List.length_map]
  refine ⟨more, hclosing, by omega, ?_⟩
  rw [systemAfter_append]
  exact hreturned

theorem return_within_reach_probing :
    (systemAfter (fun _ _ _ => none) probedConfig false probedChecks probedRuntimes
        (stoppedRun.take 3)).monitor.cancelled = true ∧
      ∃ more, (∀ action ∈ more, Closing (fun _ => .error ⟨true⟩) action) ∧ more.length ≤ 3 ∧
        (systemAfter (fun _ _ _ => none) probedConfig false probedChecks probedRuntimes
          (stoppedRun.take 3 ++ more)).monitor.returned = true :=
  ⟨rfl, return_within_reach (fun _ _ _ => none) probedConfig false probedChecks probedRuntimes
    (stoppedRun.take 3) (fun _ => .error ⟨true⟩) rfl⟩

end Health
end Gateway
end ApiGateway
