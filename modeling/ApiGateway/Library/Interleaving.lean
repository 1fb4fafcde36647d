import ApiGateway.Library.CallRun
import ApiGateway.Library.EffectProgram

/-!
# Interleaved programs over one shared state

A server starts one program for every request and runs them side by side over a
shared state.  A run is a list of actions: a request arrives, one thread makes its
next call, one thread is dropped while it waits, or something outside the server
changes the state.  Every order of such actions is a run, so a property of all
runs is a property of all interleavings.

`Pool.Coherent` collects what every reachable pool satisfies: each thread is where
its own program stands after its own calls, and the log is those calls in the
order in which they happened.
-/

namespace ApiGateway
namespace Library

open Program

/-- One request being served: the calls it has made and what is left to do. -/
structure Thread (S : Signature) (Request α : Type) where
  request : Request
  history : List (Event S)
  rest : Program S α
  dropped : Bool

/-- The call a running thread is about to make. -/
def Thread.pending? {S : Signature} {Request α : Type} (thread : Thread S Request α) :
    Option ((op : S.Op) × (S.Res op → Program S α)) :=
  match thread.dropped, thread.rest with
  | false, .call op next => some ⟨op, next⟩
  | _, _ => none

theorem Thread.rest_of_pending? {S : Signature} {Request α : Type}
    {thread : Thread S Request α} {op : S.Op} {next : S.Res op → Program S α}
    (h : thread.pending? = some ⟨op, next⟩) : thread.rest = .call op next := by
  obtain ⟨request, history, rest, dropped⟩ := thread
  cases dropped with
  | true => cases h
  | false =>
      cases rest with
      | done value => cases h
      | call op' next' =>
          cases h
          rfl

theorem Thread.dropped_of_pending? {S : Signature} {Request α : Type}
    {thread : Thread S Request α} {op : S.Op} {next : S.Res op → Program S α}
    (h : thread.pending? = some ⟨op, next⟩) : thread.dropped = false := by
  obtain ⟨request, history, rest, dropped⟩ := thread
  cases dropped with
  | true => cases h
  | false => rfl

/-- The shared state, the threads in order of arrival, and the calls made so far,
each with the number of the thread that made it. -/
structure Pool (S : Signature) (Request State α : Type) where
  state : State
  threads : List (Thread S Request α)
  log : List (Nat × Event S)

inductive Action (Request Input Disturbance : Type) where
  /-- A new request arrives and its program is started. -/
  | arrive (request : Request)
  /-- A thread makes its next call. -/
  | advance (thread : Nat) (input : Input)
  /-- A waiting thread is dropped. -/
  | cancel (thread : Nat)
  /-- The state is changed from outside the threads. -/
  | disturb (disturbance : Disturbance)

/-- What the pool needs to know about the programs it runs. -/
structure Server (S : Signature) (Request Input Disturbance State α : Type) where
  interp : Interpreter S Input State
  start : Request → Program S α
  /-- The operations at which a thread waits and may be dropped. -/
  awaits : S.Op → Bool
  /-- What dropping a thread with the given history does to the state. -/
  onDrop : List (Event S) → State → State
  disturb : Disturbance → State → State

namespace Pool

variable {S : Signature} {Request Input Disturbance State α : Type}

/-- No threads yet. -/
def initial (state : State) : Pool S Request State α := ⟨state, [], []⟩

/-- One action.  An action that names no running thread changes nothing. -/
def step (server : Server S Request Input Disturbance State α)
    (pool : Pool S Request State α) : Action Request Input Disturbance → Pool S Request State α
  | .arrive request =>
      { pool with threads := pool.threads ++ [⟨request, [], server.start request, false⟩] }
  | .advance index input =>
      match pool.threads[index]? with
      | none => pool
      | some thread =>
          match thread.pending? with
          | none => pool
          | some ⟨op, next⟩ =>
              let reply := server.interp.answer input pool.state op
              { state := reply.2
                threads := pool.threads.set index
                  { thread with
                    history := thread.history ++ [⟨op, reply.1⟩], rest := next reply.1 }
                log := pool.log ++ [(index, ⟨op, reply.1⟩)] }
  | .cancel index =>
      match pool.threads[index]? with
      | none => pool
      | some thread =>
          match thread.pending? with
          | none => pool
          | some ⟨op, _⟩ =>
              if server.awaits op then
                { pool with
                  state := server.onDrop thread.history pool.state
                  threads := pool.threads.set index { thread with dropped := true } }
              else pool
  | .disturb disturbance => { pool with state := server.disturb disturbance pool.state }

/-- The pool after a run from the given state. -/
def after (server : Server S Request Input Disturbance State α) (state : State)
    (actions : List (Action Request Input Disturbance)) : Pool S Request State α :=
  run (fun pool action => ((), pool.step server action)) (initial state) actions

/-- A property that holds of the empty pool and is kept by every action holds
after every run. -/
theorem after_induction (server : Server S Request Input Disturbance State α) (state : State)
    (invariant : Pool S Request State α → Prop) (hinit : invariant (initial state))
    (hstep : ∀ pool action, invariant pool → invariant (pool.step server action))
    (actions : List (Action Request Input Disturbance)) :
    invariant (after server state actions) :=
  run_induction (fun _ => True) (fun _ pool => invariant pool) (fun _ _ _ => trivial) hinit
    (fun _ pool action _ h => hstep pool action h) actions trivial

/-- What each action does: it starts a thread, makes the next call of a running thread,
drops a waiting thread, changes the state from outside, or does nothing. -/
theorem step_action_cases (server : Server S Request Input Disturbance State α)
    (pool : Pool S Request State α) (action : Action Request Input Disturbance) :
    (∃ request, action = .arrive request ∧ pool.step server action =
        { pool with threads := pool.threads ++ [⟨request, [], server.start request, false⟩] }) ∨
    (∃ index thread op next input, action = .advance index input ∧
        pool.threads[index]? = some thread ∧ thread.pending? = some ⟨op, next⟩ ∧
        pool.step server action =
          { state := (server.interp.answer input pool.state op).2
            threads := pool.threads.set index
              { thread with
                history := thread.history ++ [⟨op, (server.interp.answer input pool.state op).1⟩]
                rest := next (server.interp.answer input pool.state op).1 }
            log := pool.log ++ [(index, ⟨op, (server.interp.answer input pool.state op).1⟩)] }) ∨
    (∃ index thread op next, action = .cancel index ∧ pool.threads[index]? = some thread ∧
        thread.pending? = some ⟨op, next⟩ ∧ server.awaits op = true ∧
        pool.step server action =
          { pool with
            state := server.onDrop thread.history pool.state
            threads := pool.threads.set index { thread with dropped := true } }) ∨
    (∃ disturbance, action = .disturb disturbance ∧ pool.step server action =
        { pool with state := server.disturb disturbance pool.state }) ∨
    pool.step server action = pool := by
  cases action with
  | arrive request => exact Or.inl ⟨request, rfl, rfl⟩
  | advance index input =>
      simp only [step]
      split
      · exact Or.inr (Or.inr (Or.inr (Or.inr rfl)))
      · rename_i thread hthread
        split
        · exact Or.inr (Or.inr (Or.inr (Or.inr rfl)))
        · rename_i op next hpending
          exact Or.inr (Or.inl ⟨index, thread, op, next, input, rfl, hthread, hpending, rfl⟩)
  | cancel index =>
      simp only [step]
      split
      · exact Or.inr (Or.inr (Or.inr (Or.inr rfl)))
      · rename_i thread hthread
        split
        · exact Or.inr (Or.inr (Or.inr (Or.inr rfl)))
        · rename_i op next hpending
          split
          · rename_i hawaits
            exact Or.inr (Or.inr (Or.inl ⟨index, thread, op, next, rfl, hthread, hpending, hawaits,
              rfl⟩))
          · exact Or.inr (Or.inr (Or.inr (Or.inr rfl)))
  | disturb disturbance => exact Or.inr (Or.inr (Or.inr (Or.inl ⟨disturbance, rfl, rfl⟩)))

/-- The same for an action of any kind: what it does to the pool. -/
theorem step_cases (server : Server S Request Input Disturbance State α)
    (pool : Pool S Request State α) (action : Action Request Input Disturbance) :
    (∃ request, pool.step server action =
        { pool with threads := pool.threads ++ [⟨request, [], server.start request, false⟩] }) ∨
    (∃ index thread op next input,
        pool.threads[index]? = some thread ∧ thread.rest = .call op next ∧
        pool.step server action =
          { state := (server.interp.answer input pool.state op).2
            threads := pool.threads.set index
              { thread with
                history := thread.history ++ [⟨op, (server.interp.answer input pool.state op).1⟩]
                rest := next (server.interp.answer input pool.state op).1 }
            log := pool.log ++ [(index, ⟨op, (server.interp.answer input pool.state op).1⟩)] }) ∨
    (∃ index thread, pool.threads[index]? = some thread ∧
        pool.step server action =
          { pool with
            state := server.onDrop thread.history pool.state
            threads := pool.threads.set index { thread with dropped := true } }) ∨
    (∃ disturbance, pool.step server action =
        { pool with state := server.disturb disturbance pool.state }) ∨
    pool.step server action = pool := by
  rcases step_action_cases server pool action with ⟨request, -, hpool⟩ |
    ⟨index, thread, op, next, input, -, hthread, hpending, hpool⟩ |
    ⟨index, thread, op, next, -, hthread, -, -, hpool⟩ | ⟨disturbance, -, hpool⟩ | hpool
  · exact Or.inl ⟨request, hpool⟩
  · exact Or.inr (Or.inl ⟨index, thread, op, next, input, hthread,
      Thread.rest_of_pending? hpending, hpool⟩)
  · exact Or.inr (Or.inr (Or.inl ⟨index, thread, hthread, hpool⟩))
  · exact Or.inr (Or.inr (Or.inr (Or.inl ⟨disturbance, hpool⟩)))
  · exact Or.inr (Or.inr (Or.inr (Or.inr hpool)))

theorem after_snoc (server : Server S Request Input Disturbance State α) (state : State)
    (actions : List (Action Request Input Disturbance))
    (action : Action Request Input Disturbance) :
    after server state (actions ++ [action]) = (after server state actions).step server action :=
  run_append _ _ _ _

/-- The log only grows. -/
theorem log_append (server : Server S Request Input Disturbance State α) (state : State)
    (actions more : List (Action Request Input Disturbance)) :
    ∃ during, (after server state (actions ++ more)).log =
      (after server state actions).log ++ during := by
  induction more using List.reverseRecOn with
  | nil => exact ⟨[], by simp⟩
  | append_singleton more action ih =>
      obtain ⟨during, hduring⟩ := ih
      rw [← List.append_assoc, after_snoc]
      rcases step_cases server (after server state (actions ++ more)) action with ⟨_, hpool⟩ |
        ⟨caller, _, op, _, input, -, -, hpool⟩ | ⟨_, _, -, hpool⟩ | ⟨_, hpool⟩ | hpool
      · exact ⟨during, by rw [hpool]; exact hduring⟩
      · refine ⟨during ++ [(caller, ⟨op, (server.interp.answer input
          (after server state (actions ++ more)).state op).1⟩)], ?_⟩
        rw [hpool, ← List.append_assoc, ← hduring]
      · exact ⟨during, by rw [hpool]; exact hduring⟩
      · exact ⟨during, by rw [hpool]; exact hduring⟩
      · exact ⟨during, by rw [hpool]; exact hduring⟩

/-- The calls of one thread, in the order in which the log has them. -/
def callsOf (log : List (Nat × Event S)) (index : Nat) : List (Event S) :=
  log.filterMap fun entry => if entry.1 = index then some entry.2 else none

theorem callsOf_append (first second : List (Nat × Event S)) (index : Nat) :
    callsOf (first ++ second) index = callsOf first index ++ callsOf second index :=
  List.filterMap_append

theorem callsOf_snoc (log : List (Nat × Event S)) (index caller : Nat) (event : Event S) :
    callsOf (log ++ [(caller, event)]) index =
      callsOf log index ++ if caller = index then [event] else [] := by
  unfold callsOf
  rw [List.filterMap_append]
  by_cases h : caller = index
  · simp [h]
  · simp [h]

/-- Each thread is where its program stands after its own calls, and the log
records exactly the calls of the threads. -/
structure Coherent (server : Server S Request Input Disturbance State α)
    (pool : Pool S Request State α) : Prop where
  steps : ∀ (index : Nat) (thread : Thread S Request α), pool.threads[index]? = some thread →
    Steps (server.start thread.request) thread.history thread.rest
  history : ∀ (index : Nat) (thread : Thread S Request α), pool.threads[index]? = some thread →
    thread.history = callsOf pool.log index
  owner : ∀ entry ∈ pool.log, entry.1 < pool.threads.length

/-- A thread found after an arrival was there before, or is the new one. -/
theorem getElem?_arrive {threads : List (Thread S Request α)} {new thread : Thread S Request α}
    {index : Nat} (h : (threads ++ [new])[index]? = some thread) :
    threads[index]? = some thread ∨ (index = threads.length ∧ thread = new) := by
  rcases Nat.lt_or_ge index threads.length with hlt | hge
  · rw [List.getElem?_append_left hlt] at h
    exact Or.inl h
  · rw [List.getElem?_append_right hge, List.getElem?_singleton] at h
    split at h
    · exact Or.inr ⟨by omega, (Option.some.inj h).symm⟩
    · cases h

/-- A thread found after an update is the updated one, or is another one. -/
theorem getElem?_update {threads : List (Thread S Request α)} {new thread : Thread S Request α}
    {caller index : Nat} (h : (threads.set caller new)[index]? = some thread) :
    (caller = index ∧ thread = new) ∨ (caller ≠ index ∧ threads[index]? = some thread) := by
  rw [List.getElem?_set] at h
  split at h
  · rename_i heq
    split at h
    · exact Or.inl ⟨heq, (Option.some.inj h).symm⟩
    · cases h
  · rename_i hne
    exact Or.inr ⟨hne, h⟩

/-- What an action does to the history of a thread: nothing, or it adds the call that the
thread makes; a thread that was not there before has made none. -/
theorem history_step (server : Server S Request Input Disturbance State α)
    (pool : Pool S Request State α) (action : Action Request Input Disturbance) {index : Nat}
    {thread : Thread S Request α} (h : (pool.step server action).threads[index]? = some thread) :
    thread.history = [] ∨
      ∃ old, pool.threads[index]? = some old ∧
        (thread.history = old.history ∨ ∃ op input, thread.history = old.history ++
          [⟨op, (server.interp.answer input pool.state op).1⟩]) := by
  rcases step_cases server pool action with ⟨request, hstep⟩ |
    ⟨caller, running, op, next, input, hrunning, -, hstep⟩ | ⟨caller, running, hrunning, hstep⟩ |
    ⟨disturbance, hstep⟩ | hstep
  · rw [hstep] at h
    rcases getElem?_arrive h with hold | ⟨-, rfl⟩
    · exact Or.inr ⟨thread, hold, Or.inl rfl⟩
    · exact Or.inl rfl
  · rw [hstep] at h
    rcases getElem?_update h with ⟨rfl, rfl⟩ | ⟨-, hold⟩
    · exact Or.inr ⟨running, hrunning, Or.inr ⟨op, input, rfl⟩⟩
    · exact Or.inr ⟨thread, hold, Or.inl rfl⟩
  · rw [hstep] at h
    rcases getElem?_update h with ⟨rfl, rfl⟩ | ⟨-, hold⟩
    · exact Or.inr ⟨running, hrunning, Or.inl rfl⟩
    · exact Or.inr ⟨thread, hold, Or.inl rfl⟩
  · rw [hstep] at h
    exact Or.inr ⟨thread, h, Or.inl rfl⟩
  · rw [hstep] at h
    exact Or.inr ⟨thread, h, Or.inl rfl⟩

namespace Coherent

variable {server : Server S Request Input Disturbance State α} {pool : Pool S Request State α}

/-- The new thread has made no call, and no call in the log carries its number. -/
theorem arrive (h : Coherent server pool) (request : Request) :
    Coherent server
      { pool with threads := pool.threads ++ [⟨request, [], server.start request, false⟩] } := by
  refine ⟨fun index thread hthread => ?_, fun index thread hthread => ?_, fun entry hentry => ?_⟩
  · rcases getElem?_arrive hthread with hold | ⟨-, rfl⟩
    · exact h.steps index thread hold
    · exact .refl _
  · rcases getElem?_arrive hthread with hold | ⟨rfl, rfl⟩
    · exact h.history index thread hold
    · symm
      refine List.filterMap_eq_nil_iff.mpr fun entry hentry => ?_
      exact if_neg (Nat.ne_of_lt (h.owner entry hentry))
  · have := h.owner entry hentry
    simp only [List.length_append, List.length_singleton]
    omega

/-- A call goes to the end of the history of its thread and of the log. -/
theorem call (h : Coherent server pool) {caller : Nat} {running : Thread S Request α} {op : S.Op}
    {next : S.Res op → Program S α} (hrunning : pool.threads[caller]? = some running)
    (hrest : running.rest = .call op next) (result : S.Res op) (state : State) :
    Coherent server
      { state := state
        threads := pool.threads.set caller
          { running with history := running.history ++ [⟨op, result⟩], rest := next result }
        log := pool.log ++ [(caller, ⟨op, result⟩)] } := by
  refine ⟨fun index thread hthread => ?_, fun index thread hthread => ?_, fun entry hentry => ?_⟩
  · rcases getElem?_update hthread with ⟨rfl, rfl⟩ | ⟨-, hold⟩
    · have hsteps := h.steps caller running hrunning
      rw [hrest] at hsteps
      exact hsteps.snoc _
    · exact h.steps index thread hold
  · rw [callsOf_snoc]
    rcases getElem?_update hthread with ⟨rfl, rfl⟩ | ⟨hne, hold⟩
    · simp [h.history caller running hrunning]
    · simp [hne, h.history index thread hold]
  · rw [List.length_set]
    rcases List.mem_append.mp hentry with hold | hnew
    · exact h.owner entry hold
    · rw [List.mem_singleton.mp hnew]
      exact (List.getElem?_eq_some_iff.mp hrunning).1

/-- A dropped thread stays where it was. -/
theorem drop (h : Coherent server pool) {caller : Nat} {running : Thread S Request α}
    (hrunning : pool.threads[caller]? = some running) (state : State) :
    Coherent server
      { pool with
        state := state
        threads := pool.threads.set caller { running with dropped := true } } := by
  refine ⟨fun index thread hthread => ?_, fun index thread hthread => ?_, fun entry hentry => ?_⟩
  · rcases getElem?_update hthread with ⟨-, rfl⟩ | ⟨-, hold⟩
    · exact h.steps caller running hrunning
    · exact h.steps index thread hold
  · rcases getElem?_update hthread with ⟨rfl, rfl⟩ | ⟨-, hold⟩
    · exact h.history caller running hrunning
    · exact h.history index thread hold
  · rw [List.length_set]
    exact h.owner entry hentry

end Coherent

theorem coherent_step (server : Server S Request Input Disturbance State α)
    (pool : Pool S Request State α) (action : Action Request Input Disturbance)
    (h : Coherent server pool) : Coherent server (pool.step server action) := by
  rcases step_cases server pool action with ⟨request, hstep⟩ |
    ⟨caller, running, op, next, input, hrunning, hrest, hstep⟩ |
    ⟨caller, running, hrunning, hstep⟩ | ⟨disturbance, hstep⟩ | hstep
  · rw [hstep]
    exact h.arrive request
  · rw [hstep]
    exact h.call hrunning hrest _ _
  · rw [hstep]
    exact h.drop hrunning _
  · rw [hstep]
    exact ⟨h.steps, h.history, h.owner⟩
  · rw [hstep]
    exact h

/-- Every reachable pool is coherent. -/
theorem coherent_after (server : Server S Request Input Disturbance State α) (state : State)
    (actions : List (Action Request Input Disturbance)) :
    Coherent server (after server state actions) :=
  after_induction server state (Coherent server)
    ⟨by simp [initial], by simp [initial], by simp [initial]⟩
    (fun pool action h => coherent_step server pool action h) actions

/-- A logged call is in the history of the thread that made it. -/
theorem Coherent.mem_history {server : Server S Request Input Disturbance State α}
    {pool : Pool S Request State α} (h : Coherent server pool) {index : Nat} {event : Event S}
    (hentry : (index, event) ∈ pool.log) :
    ∃ thread, pool.threads[index]? = some thread ∧ event ∈ thread.history := by
  have hthread := List.getElem?_eq_getElem (h.owner _ hentry)
  refine ⟨_, hthread, ?_⟩
  rw [h.history index _ hthread]
  exact List.mem_filterMap.mpr ⟨(index, event), hentry, if_pos rfl⟩

/-- A call in the history of a thread is logged. -/
theorem Coherent.mem_log {server : Server S Request Input Disturbance State α}
    {pool : Pool S Request State α} (h : Coherent server pool) {index : Nat}
    {thread : Thread S Request α} (hthread : pool.threads[index]? = some thread) {event : Event S}
    (hevent : event ∈ thread.history) : (index, event) ∈ pool.log := by
  rw [h.history index thread hthread] at hevent
  obtain ⟨⟨caller, logged⟩, hentry, hsome⟩ := List.mem_filterMap.mp hevent
  obtain ⟨hcaller, hlogged⟩ := Option.ite_none_right_eq_some.mp hsome
  obtain rfl := Option.some.inj hlogged
  obtain rfl : caller = index := hcaller
  exact hentry

/-- What an invariant says about the answer to any call holds of every logged call,
with the log before it. -/
theorem log_after_induction (server : Server S Request Input Disturbance State α) (state : State)
    (invariant : Pool S Request State α → Prop)
    (logged : List (Nat × Event S) → Nat × Event S → Prop)
    (hinit : invariant (initial state))
    (hstep : ∀ pool action, invariant pool → invariant (pool.step server action))
    (hcall : ∀ pool index op input, invariant pool →
      logged pool.log (index, ⟨op, (server.interp.answer input pool.state op).1⟩))
    (actions : List (Action Request Input Disturbance)) :
    ∀ before entry rest, (after server state actions).log = before ++ entry :: rest →
      logged before entry := by
  refine (after_induction server state (fun pool => invariant pool ∧
    ∀ before entry rest, pool.log = before ++ entry :: rest → logged before entry)
    ⟨hinit, by simp [initial]⟩ (fun pool action h => ⟨hstep pool action h.1, ?_⟩) actions).2
  rcases step_cases server pool action with ⟨_, hpool⟩ |
    ⟨caller, _, op, _, input, -, -, hpool⟩ | ⟨_, _, -, hpool⟩ | ⟨_, hpool⟩ | hpool
  · rw [hpool]
    exact h.2
  · -- The log grew by one call: it is the new one, or it was logged before.
    rw [hpool]
    intro before entry rest hlog
    cases rest using List.reverseRecOn with
    | nil =>
        obtain ⟨rfl, hentry⟩ := List.append_inj' hlog rfl
        obtain rfl := (List.cons.inj hentry).1
        exact hcall pool caller op input h.1
    | append_singleton rest last =>
        rw [← List.cons_append, ← List.append_assoc] at hlog
        exact h.2 before entry rest (List.append_inj' hlog rfl).1
  · rw [hpool]
    exact h.2
  · rw [hpool]
    exact h.2
  · rw [hpool]
    exact h.2

end Pool
end Library
end ApiGateway
