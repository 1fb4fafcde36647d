import ApiGateway.Gateway.HealthRefinement

/-!
# What the health check tasks do over a whole run

The events of one upstream are the local run of its own task, whatever happens around it:
`localRun_after`.  From there the number of probes in a span of time is bounded by the interval,
and a probe is only sent when the one before it has been answered.

The shutdown is a small protocol between the token, the tasks and `run`.  Once `run` has
returned, no flag is written any more; and once the token is cancelled, the tasks can always
finish, whatever the probes that are out are answered, with no help from the clock.
-/

namespace ApiGateway
namespace Gateway
namespace Health

open Library Core

/-! ## The run of one task -/

def HealthEvent.upstream : HealthEvent → UpstreamId
  | .polled upstream _ | .sent upstream _ _ | .stopped upstream | .reported upstream _ => upstream

/-- The events of one upstream, in order. -/
def eventsOf (journal : List HealthEvent) (upstream : UpstreamId) : List HealthEvent :=
  journal.filter fun event => event.upstream = upstream

/-- The instant at which an event sent a probe. -/
def HealthEvent.sentAt? : HealthEvent → Option Instant
  | .sent _ _ now => some now
  | _ => none

/-- The instants at which probes were sent. -/
def sentTimes (journal : List HealthEvent) : List Instant := journal.filterMap HealthEvent.sentAt?

/-- The events a task can have gone through when it stands at a phase. -/
inductive LocalRun (task : ProbeTask) : Phase → List HealthEvent → Prop where
  | spawned : LocalRun task .spawned []
  | move {phase phase' : Phase} {events : List HealthEvent} {cancelled : Bool} {now : Instant}
      {move : Move} (before : LocalRun task phase events)
      (possible : task.move cancelled now phase move = some phase') :
      LocalRun task phase' (events ++ [task.event now move])

/-- The moves a task can make. -/
theorem move_cases {task : ProbeTask} {cancelled : Bool} {now : Instant} {phase phase' : Phase}
    {move : Move} (h : task.move cancelled now phase move = some phase') :
    (phase = .spawned ∧ move = .poll ∧
      phase' = .waiting (.interval task.interval task.interval_pos now)) ∨
    (∃ ticker, phase = .waiting ticker ∧ move = .tick ∧ ticker.ready now = true ∧
      phase' = .probing (ticker.tick now)) ∨
    (∃ ticker, phase = .waiting ticker ∧ move = .stop ∧ cancelled = true ∧ phase' = .ended) ∨
    (∃ ticker reply, phase = .probing ticker ∧ move = .finish reply ∧
      phase' = .waiting ticker) := by
  cases phase with
  | spawned =>
      cases move with
      | poll => exact Or.inl ⟨rfl, rfl, (Option.some.inj h).symm⟩
      | _ => cases h
  | waiting ticker =>
      cases move with
      | tick =>
          simp only [ProbeTask.move, Option.ite_none_right_eq_some] at h
          exact Or.inr (Or.inl ⟨ticker, rfl, rfl, h.1, (Option.some.inj h.2).symm⟩)
      | stop =>
          simp only [ProbeTask.move, Option.ite_none_right_eq_some] at h
          exact Or.inr (Or.inr (Or.inl ⟨ticker, rfl, rfl, h.1, (Option.some.inj h.2).symm⟩))
      | _ => cases h
  | probing ticker =>
      cases move with
      | finish reply =>
          exact Or.inr (Or.inr (Or.inr ⟨ticker, reply, rfl, rfl, (Option.some.inj h).symm⟩))
      | _ => cases h
  | ended => cases h

/-- The ticker of a task, once it has one, stands where its probes have left it. -/
def OnTime (task : ProbeTask) (events : List HealthEvent) (ticker : Ticker) : Prop :=
  ticker.period = task.interval ∧
    ∃ start, Ticker.OnSchedule start (sentTimes events) ticker

/-- What the events of a task say at each phase: how many probes are out, and that the
probes so far were sent on time. -/
def Accounted (task : ProbeTask) (events : List HealthEvent) : Phase → Prop
  | .spawned => events = []
  | .waiting ticker =>
      (sentTimes events).length = (reports events).length ∧ OnTime task events ticker
  | .probing ticker =>
      (sentTimes events).length = (reports events).length + 1 ∧ OnTime task events ticker
  | .ended =>
      (sentTimes events).length = (reports events).length ∧ ∃ ticker, OnTime task events ticker

theorem sentTimes_snoc (journal : List HealthEvent) (event : HealthEvent) :
    sentTimes (journal ++ [event]) = sentTimes journal ++ event.sentAt?.toList := by
  unfold sentTimes
  rw [List.filterMap_append]
  cases h : event.sentAt? <;> simp [h]

theorem LocalRun.accounted {task : ProbeTask} {phase : Phase} {events : List HealthEvent}
    (h : LocalRun task phase events) : Accounted task events phase := by
  induction h with
  | spawned => rfl
  | move _ possible ih =>
      rename_i events cancelled now move _
      rcases move_cases possible with ⟨rfl, rfl, rfl⟩ | ⟨ticker, rfl, rfl, hready, rfl⟩ |
        ⟨ticker, rfl, rfl, -, rfl⟩ | ⟨ticker, reply, rfl, rfl, rfl⟩
      · obtain rfl : events = [] := ih
        exact ⟨rfl, rfl, now, .interval task.interval task.interval_pos now⟩
      · obtain ⟨hcount, hperiod, start, hschedule⟩ := ih
        refine ⟨?_, hperiod, start, ?_⟩
        · simp [sentTimes_snoc, reports_snoc, ProbeTask.event, HealthEvent.sentAt?,
            HealthEvent.probe?, hcount]
        · rw [sentTimes_snoc]
          exact hschedule.tick hready
      · obtain ⟨hcount, hperiod, start, hschedule⟩ := ih
        refine ⟨?_, ticker, hperiod, start, ?_⟩
        · simpa [sentTimes_snoc, reports_snoc, ProbeTask.event, HealthEvent.sentAt?,
            HealthEvent.probe?] using hcount
        · rw [sentTimes_snoc]
          simpa [ProbeTask.event, HealthEvent.sentAt?] using hschedule
      · obtain ⟨hcount, hperiod, start, hschedule⟩ := ih
        refine ⟨?_, hperiod, start, ?_⟩
        · simpa [sentTimes_snoc, reports_snoc, ProbeTask.event, HealthEvent.sentAt?,
            HealthEvent.probe?] using hcount
        · rw [sentTimes_snoc]
          simpa [ProbeTask.event, HealthEvent.sentAt?] using hschedule

/-- The probes of a task in a span of time. -/
theorem LocalRun.countP_sentTimes_le {task : ProbeTask} {phase : Phase}
    {events : List HealthEvent} (h : LocalRun task phase events) (first last : Instant) :
    (sentTimes events).countP (fun now => first ≤ now ∧ now ≤ last) ≤
      (last - first) / task.interval + 2 := by
  have hontime : ∀ ticker, OnTime task events ticker →
      (sentTimes events).countP (fun now => first ≤ now ∧ now ≤ last) ≤
        (last - first) / task.interval + 2 := by
    rintro ticker ⟨hperiod, start, hschedule⟩
    rw [← hperiod]
    exact hschedule.countP_le first last
  have haccounted := h.accounted
  cases phase with
  | spawned =>
      obtain rfl : events = [] := haccounted
      exact Nat.zero_le _
  | waiting ticker | probing ticker => exact hontime ticker haccounted.2
  | ended =>
      obtain ⟨-, ticker, hticker⟩ := haccounted
      exact hontime ticker hticker

/-- At most one probe of a task is out. -/
theorem LocalRun.length_sentTimes {task : ProbeTask} {phase : Phase} {events : List HealthEvent}
    (h : LocalRun task phase events) :
    (reports events).length ≤ (sentTimes events).length ∧
      (sentTimes events).length ≤ (reports events).length + 1 := by
  have haccounted := h.accounted
  cases phase with
  | spawned =>
      obtain rfl : events = [] := haccounted
      exact ⟨Nat.le_refl _, Nat.zero_le _⟩
  | waiting ticker | ended => exact ⟨haccounted.1.ge, haccounted.1.le.trans (Nat.le_succ _)⟩
  | probing ticker => exact ⟨(Nat.le_succ _).trans haccounted.1.ge, haccounted.1.le⟩

/-- Every probe of a task is the same request. -/
theorem LocalRun.request_eq {task : ProbeTask} {phase : Phase} {events : List HealthEvent}
    (h : LocalRun task phase events) {upstream : UpstreamId} {request : OutgoingRequest}
    {now : Instant} (hsent : .sent upstream request now ∈ events) : request = task.request := by
  induction h with
  | spawned => cases hsent
  | move _ possible ih =>
      rename_i move _
      rcases List.mem_append.mp hsent with hold | hnew
      · exact ih hold
      · cases move with
        | tick =>
            cases List.mem_singleton.mp hnew
            rfl
        | _ => cases List.mem_singleton.mp hnew

/-! ## The tasks among each other -/

theorem upstream_event (task : ProbeTask) (now : Instant) (move : Move) :
    (task.event now move).upstream = task.upstream := by
  cases move <;> rfl

theorem eventsOf_snoc (journal : List HealthEvent) (event : HealthEvent) (upstream : UpstreamId) :
    eventsOf (journal ++ [event]) upstream =
      eventsOf journal upstream ++ if event.upstream = upstream then [event] else [] := by
  unfold eventsOf
  rw [List.filter_append]
  by_cases h : event.upstream = upstream
  · simp [h]
  · simp [h]

/-- No two tasks share an upstream, and each has made the moves that its events say. -/
structure Projected (monitor : Monitor) : Prop where
  nodup : (monitor.tasks.map fun running => running.task.upstream).Nodup
  localRun : ∀ (index : Nat) (running : RunningTask), monitor.tasks[index]? = some running →
    LocalRun running.task running.phase (eventsOf monitor.journal running.task.upstream)

/-- Tasks at different positions have different upstreams. -/
theorem Projected.upstream_ne {monitor : Monitor} (h : Projected monitor) {first second : Nat}
    {one other : RunningTask} (hone : monitor.tasks[first]? = some one)
    (hother : monitor.tasks[second]? = some other) (hne : first ≠ second) :
    one.task.upstream ≠ other.task.upstream := by
  intro heq
  have hlt : first < (monitor.tasks.map fun running => running.task.upstream).length := by
    simpa using (List.getElem?_eq_some_iff.mp hone).1
  refine hne ((List.getElem?_inj hlt h.nodup).mp ?_)
  simp [List.getElem?_map, hone, hother, heq]

theorem Projected.move {monitor : Monitor} (h : Projected monitor) {index : Nat}
    {running : RunningTask} {phase : Phase} {cancelled : Bool} {now : Instant} {move : Move}
    (hrunning : monitor.tasks[index]? = some running)
    (hmove : running.task.move cancelled now running.phase move = some phase) :
    Projected
      { monitor with
        tasks := monitor.tasks.set index ⟨running.task, phase⟩
        journal := monitor.journal ++ [running.task.event now move] } := by
  have hsame : (monitor.tasks.set index ⟨running.task, phase⟩).map
      (fun running => running.task.upstream) =
        monitor.tasks.map fun running => running.task.upstream := by
    obtain ⟨hlt, hget⟩ := List.getElem?_eq_some_iff.mp hrunning
    rw [List.map_set]
    refine List.ext_getElem? fun other => ?_
    rw [List.getElem?_set]
    split
    · rename_i heq
      subst heq
      simp [hlt, hget]
    · rfl
  refine ⟨by rw [hsame]; exact h.nodup, fun other found hfound => ?_⟩
  rw [eventsOf_snoc, upstream_event]
  by_cases heq : index = other
  · subst heq
    obtain ⟨hlt, -⟩ := List.getElem?_eq_some_iff.mp hrunning
    simp only [List.getElem?_set_self hlt, Option.some.injEq] at hfound
    subst hfound
    rw [if_pos rfl]
    exact .move (h.localRun index running hrunning) hmove
  · rw [List.getElem?_set_ne heq] at hfound
    rw [if_neg (h.upstream_ne hrunning hfound heq), List.append_nil]
    exact h.localRun other found hfound

theorem Projected.step (gateway : Server effects Incoming Input Probe World Response)
    {system : System} (h : Projected system.monitor) (action : SystemAction) :
    Projected (system.step gateway action).monitor := by
  cases action with
  | move index move =>
      rcases step_move_cases gateway system index move with
        ⟨running, phase, hrunning, hmove, hstep⟩ | hstep
      · rw [hstep]
        exact h.move hrunning hmove
      · rw [hstep]
        exact h
  | join =>
      show Projected system.monitor.join
      unfold Monitor.join
      split
      · exact ⟨h.nodup, h.localRun⟩
      · exact h
  | shutdown => exact ⟨h.nodup, h.localRun⟩
  | _ => exact h

/-! ## One task for each upstream -/

/-- Every runtime of the table was built from the route at its position. -/
theorem mem_insertRoutes {routes : List (RouteConfig × Nat)} {table : StringMap RouteRuntime}
    {entry : (_ : String) × RouteRuntime}
    (h : entry ∈ (GatewayState.insertRoutes routes table).entries) :
    entry ∈ table.entries ∨
      ∃ route id, (route, id) ∈ routes ∧ entry = ⟨route.name, .fromConfig id route⟩ := by
  induction routes generalizing table with
  | nil => exact Or.inl h
  | cons head routes ih =>
      rcases ih h with hinserted | ⟨route, id, hmem, rfl⟩
      · rw [AList.entries_insert] at hinserted
        rcases List.mem_cons.mp hinserted with rfl | hold
        · exact Or.inr ⟨head.1, head.2, List.mem_cons_self, rfl⟩
        · exact Or.inl ((List.kerase_sublist _ _).subset hold)
      · exact Or.inr ⟨route, id, List.mem_cons_of_mem _ hmem, rfl⟩

/-- The runtimes of the route table. -/
def runtimesOf (state : GatewayState) : List RouteRuntime := state.routes.entries.map Sigma.snd

/-- The table holds no two runtimes of one position: a position has one name, and a name
has one entry. -/
theorem nodup_runtimesOf (config : GatewayConfig) (redisReachable : Bool) :
    ((runtimesOf (.build config redisReachable)).map RouteRuntime.id).Nodup := by
  set table := (GatewayState.build config redisReachable).routes with htable
  have hname : ∀ entry ∈ table.entries, ∃ route id, config.routes[id]? = some route ∧
      entry = (⟨route.name, .fromConfig id route⟩ : (_ : String) × RouteRuntime) := by
    intro entry hentry
    rcases mem_insertRoutes hentry with hempty | ⟨route, id, hroute, rfl⟩
    · cases hempty
    · exact ⟨route, id, List.mem_zipIdx_iff_getElem?.mp hroute, rfl⟩
  show ((table.entries.map Sigma.snd).map RouteRuntime.id).Nodup
  rw [List.map_map]
  refine List.Nodup.map_on ?_ (List.Nodup.of_map _ table.nodupKeys)
  intro first hfirst second hsecond hid
  obtain ⟨route, id, hroute, rfl⟩ := hname first hfirst
  obtain ⟨route', id', hroute', rfl⟩ := hname second hsecond
  obtain rfl : id = id' := hid
  obtain rfl : route = route' := Option.some.inj (hroute.symm.trans hroute')
  rfl

theorem nodup_probeTasks (checks : HealthChecks) {runtimes : List RouteRuntime}
    (h : (runtimes.map RouteRuntime.id).Nodup) :
    ((probeTasks checks runtimes).map ProbeTask.upstream).Nodup := by
  have hroute : ∀ runtime, ∀ upstream ∈ (probesOf checks runtime).map ProbeTask.upstream,
      upstream.route = runtime.id := by
    intro runtime upstream hupstream
    unfold probesOf at hupstream
    split at hupstream
    · cases hupstream
    · rw [List.map_map] at hupstream
      obtain ⟨entry, -, rfl⟩ := List.mem_map.mp hupstream
      rfl
  rw [probeTasks, List.map_flatMap, List.nodup_flatMap]
  refine ⟨fun runtime _ => ?_, ?_⟩
  · unfold probesOf
    split
    · exact List.nodup_nil
    · rw [List.map_map]
      refine List.Nodup.map_on ?_ (List.Nodup.of_map Prod.snd ?_)
      · rintro ⟨one, i⟩ hone ⟨other, j⟩ hother heq
        obtain rfl : i = j := congrArg UpstreamId.index heq
        have hone' : runtime.balancer.upstreams[i]? = some one :=
          List.mem_zipIdx_iff_getElem?.mp hone
        have hother' : runtime.balancer.upstreams[i]? = some other :=
          List.mem_zipIdx_iff_getElem?.mp hother
        rw [Option.some.inj (hone'.symm.trans hother')]
      · rw [List.zipIdx_map_snd]
        exact List.nodup_range'
  · refine (List.pairwise_map.mp h).imp fun hne => ?_
    refine List.disjoint_left.mpr fun upstream hleft hright => hne ?_
    rw [← hroute _ upstream hleft, ← hroute _ upstream hright]

/-- What the task of an upstream has done after a run of the system. -/
def eventsAfter (decode : TokenDecoder) (config : GatewayConfig) (redisReachable : Bool)
    (checks : HealthChecks) (runtimes : List RouteRuntime) (actions : List SystemAction)
    (upstream : UpstreamId) : List HealthEvent :=
  eventsOf (systemAfter decode config redisReachable checks runtimes actions).monitor.journal
    upstream

section Runs

variable {decode : TokenDecoder} {config : GatewayConfig} {redisReachable : Bool}
  {checks : HealthChecks} {runtimes : List RouteRuntime}

theorem projected_after (hnodup : (runtimes.map RouteRuntime.id).Nodup)
    (actions : List SystemAction) :
    Projected (systemAfter decode config redisReachable checks runtimes actions).monitor := by
  refine systemAfter_induction (fun system => Projected system.monitor) ⟨?_, ?_⟩
    (fun _ action h => h.step _ action) actions
  · have htasks := nodup_probeTasks checks hnodup
    simpa [Monitor.start, Function.comp_def] using htasks
  · intro index running hrunning
    simp only [Monitor.start, List.getElem?_map, Option.map_eq_some_iff] at hrunning
    obtain ⟨task, -, rfl⟩ := hrunning
    exact .spawned

/-- The events of the upstream of a task are a run of that task. -/
theorem localRun_after (hnodup : (runtimes.map RouteRuntime.id).Nodup) {task : ProbeTask}
    (htask : task ∈ probeTasks checks runtimes) (actions : List SystemAction) :
    ∃ phase, LocalRun task phase
      (eventsAfter decode config redisReachable checks runtimes actions task.upstream) := by
  have htasks : (systemAfter decode config redisReachable checks runtimes
      actions).monitor.tasks.map RunningTask.task = probeTasks checks runtimes :=
    tasks_systemAfter actions
  rw [← htasks] at htask
  obtain ⟨running, hrunning, rfl⟩ := List.mem_map.mp htask
  obtain ⟨index, hindex⟩ := List.mem_iff_getElem?.mp hrunning
  exact ⟨running.phase, (projected_after hnodup actions).localRun index running hindex⟩

/-- The upstreams of a configured route with a health check have a task. -/
theorem new_mem_probeTasks (hvalid : config.Valid)
    (hruntimes : runtimes.Perm (runtimesOf (.build config redisReachable)))
    {id : RouteId} {route : RouteConfig} {hc : HealthCheckConfig} {index : Nat}
    {upstream : Upstream} (hroute : config.routes[id]? = some route)
    (hcheck : checks id = some hc)
    (hupstream : (RouteRuntime.fromConfig id route).balancer.upstreams[index]? = some upstream) :
    .new hc ⟨id, index⟩ upstream ∈ probeTasks checks runtimes := by
  have hlookup := GatewayState.route_build hvalid redisReachable hroute
  have hruntime : RouteRuntime.fromConfig id route ∈ runtimes := by
    refine hruntimes.mem_iff.mpr (List.mem_map.mpr ⟨⟨route.name, _⟩, ?_, rfl⟩)
    exact AList.mem_lookup_iff.mp hlookup
  refine List.mem_flatMap.mpr ⟨_, hruntime, ?_⟩
  have hid : (RouteRuntime.fromConfig id route).id = id := rfl
  simp only [probesOf, hid, hcheck]
  exact List.mem_map.mpr ⟨(upstream, index), List.mem_zipIdx_iff_getElem?.mpr hupstream, rfl⟩

/-! ## Where the flags come from -/

/-- The reports on an upstream are those among its events. -/
theorem verdict_eventsOf (journal : List HealthEvent) (upstream : UpstreamId) :
    verdict (reports journal) upstream = verdict (reports (eventsOf journal upstream)) upstream := by
  induction journal using List.reverseRecOn with
  | nil => rfl
  | append_singleton journal event ih =>
      rw [eventsOf_snoc, reports_snoc]
      cases event with
      | reported target healthy =>
          by_cases h : target = upstream
          · rw [HealthEvent.upstream, if_pos h, reports_snoc]
            simp only [HealthEvent.probe?, Option.toList_some, verdict_snoc, ih]
          · rw [HealthEvent.upstream, if_neg h, List.append_nil, ← ih]
            simp only [HealthEvent.probe?, Option.toList_some, verdict_snoc, if_neg h]
      | polled target _ | sent target _ _ | stopped target =>
          split
          · simp [reports_snoc, HealthEvent.probe?, ih]
          · simp [HealthEvent.probe?, ih]

/-- Every event belongs to a task. -/
theorem upstream_of_mem_journal (actions : List SystemAction) :
    ∀ event ∈ (systemAfter decode config redisReachable checks runtimes actions).monitor.journal,
      event.upstream ∈ (probeTasks checks runtimes).map ProbeTask.upstream := by
  induction actions using List.reverseRecOn with
  | nil => nofun
  | append_singleton actions action ih =>
      rw [systemAfter_snoc]
      cases action with
      | move index move =>
          rcases step_move_cases (server decode (.build config redisReachable))
            (systemAfter decode config redisReachable checks runtimes actions) index move with
            ⟨running, phase, hrunning, -, hstep⟩ | hstep
          · rw [hstep]
            intro event hevent
            rcases List.mem_append.mp hevent with hold | hnew
            · exact ih event hold
            · rw [List.mem_singleton.mp hnew, upstream_event]
              have htasks : (systemAfter decode config redisReachable checks runtimes
                  actions).monitor.tasks.map RunningTask.task = probeTasks checks runtimes :=
                tasks_systemAfter actions
              rw [← htasks, List.map_map]
              exact List.mem_map.mpr ⟨running, List.mem_of_getElem? hrunning, rfl⟩
          · rw [hstep]
            exact ih
      | join =>
          have hjournal (monitor : Monitor) : monitor.join.journal = monitor.journal := by
            unfold Monitor.join
            split <;> rfl
          show ∀ event ∈ Monitor.journal (Monitor.join _), _
          rw [hjournal]
          exact ih
      | _ => exact ih

end Runs

/-- In every run, the events of an upstream of a route with a health check are a run of the
loop of its own task, and its flag says what the last finished probe among them found; the
flags of upstreams of other routes stay true. -/
theorem healthy_iff_last_probe (decode : TokenDecoder) {config : GatewayConfig}
    (hvalid : config.validate = .ok ()) (redisReachable : Bool) (checks : HealthChecks)
    {runtimes : List RouteRuntime}
    (hruntimes : runtimes.Perm (runtimesOf (.build config redisReachable)))
    {id : RouteId} {route : RouteConfig} {index : Nat} {upstream : Upstream}
    (hroute : config.routes[id]? = some route)
    (hupstream : (RouteRuntime.fromConfig id route).balancer.upstreams[index]? = some upstream)
    (actions : List SystemAction) :
    (∀ hc, checks id = some hc →
      (∃ phase, LocalRun (.new hc ⟨id, index⟩ upstream) phase
          (eventsAfter decode config redisReachable checks runtimes actions ⟨id, index⟩)) ∧
        ((systemAfter decode config redisReachable checks runtimes
            actions).pool.state.upstream ⟨id, index⟩).healthy =
          verdict (reports (eventsAfter decode config redisReachable checks runtimes actions
            ⟨id, index⟩)) ⟨id, index⟩) ∧
      (checks id = none →
        ((systemAfter decode config redisReachable checks runtimes
          actions).pool.state.upstream ⟨id, index⟩).healthy = true) := by
  rw [healthy_systemAfter, verdict_eventsOf]
  constructor
  · intro hc hcheck
    have hnodup : (runtimes.map RouteRuntime.id).Nodup :=
      (hruntimes.map _).nodup_iff.mpr (nodup_runtimesOf config redisReachable)
    have htask : .new hc ⟨id, index⟩ upstream ∈ probeTasks checks runtimes :=
      new_mem_probeTasks ((validate_eq_ok_iff config).mp hvalid) hruntimes hroute hcheck hupstream
    exact ⟨localRun_after hnodup htask actions, rfl⟩
  · intro hcheck
    have hnone : eventsOf (systemAfter decode config redisReachable checks runtimes
        actions).monitor.journal ⟨id, index⟩ = [] := by
      refine List.filter_eq_nil_iff.mpr fun event hevent htarget => ?_
      have hmem := upstream_of_mem_journal actions event hevent
      rw [of_decide_eq_true htarget] at hmem
      obtain ⟨task, htask, htaskUpstream⟩ := List.mem_map.mp hmem
      obtain ⟨runtime, -, hprobe⟩ := List.mem_flatMap.mp htask
      -- A task for the upstream would come from a route at this position with a section.
      unfold probesOf at hprobe
      split at hprobe
      · cases hprobe
      · rename_i hc hruntimeCheck
        obtain ⟨entry, -, rfl⟩ := List.mem_map.mp hprobe
        have hid : runtime.id = id := congrArg UpstreamId.route htaskUpstream
        rw [hid, hcheck] at hruntimeCheck
        cases hruntimeCheck
    rw [hnone]
    rfl

/-- One route over one upstream, probed every five seconds. -/
def probedRoute : RouteConfig :=
  { name := "probed", upstreams := [{ url := "http://probed:80/" }] }

def probedConfig : GatewayConfig := { routes := [probedRoute] }

def probedUpstream : Upstream := (Balancer.fromRoute probedRoute).upstreamAt 0

theorem probedUpstream_mem :
    (RouteRuntime.fromConfig 0 probedRoute).balancer.upstreams[0]? = some probedUpstream := rfl

def probedChecks : HealthChecks := fun _ => some { path := "/health" }

def probedRuntimes : List RouteRuntime := runtimesOf (.build probedConfig false)

/-- The first probe fails and the second is out, five seconds later. -/
def probedRun : List SystemAction :=
  [.move 0 .poll, .move 0 .tick, .move 0 (.finish (.error ⟨true⟩)), .pass (Duration.fromSecs 5),
    .move 0 .tick]

theorem healthy_iff_last_probe_failed :
    ((systemAfter (fun _ _ _ => none) probedConfig false probedChecks probedRuntimes
        probedRun).pool.state.upstream ⟨0, 0⟩).healthy =
      verdict (reports (eventsAfter (fun _ _ _ => none) probedConfig false probedChecks
        probedRuntimes probedRun ⟨0, 0⟩)) ⟨0, 0⟩ ∧
    ((systemAfter (fun _ _ _ => none) probedConfig false probedChecks probedRuntimes
        probedRun).pool.state.upstream ⟨0, 0⟩).healthy = false := by
  have hvalid : probedConfig.validate = .ok () := by decide
  have hroute : probedConfig.routes[0]? = some probedRoute := rfl
  have hflag := ((healthy_iff_last_probe (fun _ _ _ => none) hvalid false probedChecks
    (List.Perm.refl probedRuntimes) hroute probedUpstream_mem probedRun).1 _ rfl).2
  exact ⟨hflag, rfl⟩

/-- Pacing of the probes: in every run of the gateway, an upstream of a route with a health
check is sent at most one probe per interval that a span of time reaches into, never
a second one while one is out, and always the same request. -/
theorem probes_paced (decode : TokenDecoder) {config : GatewayConfig}
    (hvalid : config.validate = .ok ()) (redisReachable : Bool) (checks : HealthChecks)
    {runtimes : List RouteRuntime}
    (hruntimes : runtimes.Perm (runtimesOf (.build config redisReachable)))
    {id : RouteId} {route : RouteConfig} {hc : HealthCheckConfig} {index : Nat}
    {upstream : Upstream} (hroute : config.routes[id]? = some route)
    (hcheck : checks id = some hc)
    (hupstream : (RouteRuntime.fromConfig id route).balancer.upstreams[index]? = some upstream)
    (actions : List SystemAction) (events : List HealthEvent)
    (hevents :
      eventsAfter decode config redisReachable checks runtimes actions ⟨id, index⟩ = events) :
    (∀ first last : Instant,
      (sentTimes events).countP (fun now => first ≤ now ∧ now ≤ last) ≤
        (last - first) / Duration.fromSecs (max hc.intervalSecs.toNat 1) + 2) ∧
      (reports events).length ≤ (sentTimes events).length ∧
      (sentTimes events).length ≤ (reports events).length + 1 ∧
      ∀ target request now, .sent target request now ∈ events →
        request = { method := .get, url := upstream.url ++ hc.path, headers := [], body := [],
                    timeout := Duration.fromMillis (max hc.timeoutMs.toNat 100) } := by
  have hnodup : (runtimes.map RouteRuntime.id).Nodup :=
    (hruntimes.map _).nodup_iff.mpr (nodup_runtimesOf config redisReachable)
  have htask : .new hc ⟨id, index⟩ upstream ∈ probeTasks checks runtimes :=
    new_mem_probeTasks ((validate_eq_ok_iff config).mp hvalid) hruntimes hroute hcheck hupstream
  obtain ⟨phase, hrun⟩ : ∃ phase, LocalRun (.new hc ⟨id, index⟩ upstream) phase
      (eventsAfter decode config redisReachable checks runtimes actions ⟨id, index⟩) :=
    localRun_after hnodup htask actions
  rw [hevents] at hrun
  refine ⟨hrun.countP_sentTimes_le, hrun.length_sentTimes.1, hrun.length_sentTimes.2, ?_⟩
  intro target request now hsent
  exact hrun.request_eq hsent

theorem probes_paced_twice :
    sentTimes (eventsAfter (fun _ _ _ => none) probedConfig false probedChecks probedRuntimes
        probedRun ⟨0, 0⟩) = [0, Duration.fromSecs 5] ∧
      (sentTimes (eventsAfter (fun _ _ _ => none) probedConfig false probedChecks probedRuntimes
        probedRun ⟨0, 0⟩)).countP (fun now => 0 ≤ now ∧ now ≤ Duration.fromSecs 4) ≤
          (Duration.fromSecs 4 - 0) / Duration.fromSecs 5 + 2 := by
  have hvalid : probedConfig.validate = .ok () := by decide
  have hroute : probedConfig.routes[0]? = some probedRoute := rfl
  exact ⟨rfl, (probes_paced (fun _ _ _ => none) hvalid false probedChecks
    (List.Perm.refl probedRuntimes) hroute rfl probedUpstream_mem probedRun _ rfl).1 0 _⟩

end Health
end Gateway
end ApiGateway
