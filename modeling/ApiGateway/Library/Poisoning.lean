import ApiGateway.Library.Interleaving

/-!
# Threads that panic

A `Checked` server says which operations panic: `attempt` is an operation as it is checked
when it runs, and where it does not panic it is the operation of the server.  An operation
may hold a lock.  A panic ends its thread and poisons the lock that the operation holds,
and whatever takes a poisoned lock later panics as well.

`panics_eq_nil_iff` reduces all this to runs of the server itself, where nothing panics: a
run is free of panics if and only if every call that it makes there passes its checks.
-/

namespace ApiGateway
namespace Library

open Program

variable {S : Signature} {Request Input Disturbance State α Lock Panic : Type}

/-- The action makes the next call of a running thread. -/
def Pool.Calls (pool : Pool S Request State α) (action : Action Request Input Disturbance)
    (input : Input) (op : S.Op) : Prop :=
  ∃ index thread next, action = .advance index input ∧ pool.threads[index]? = some thread ∧
    thread.pending? = some ⟨op, next⟩

/-- A server with the checks of its operations. -/
structure Checked (S : Signature) (Request Input Disturbance State α Lock Panic : Type) where
  server : Server S Request Input Disturbance State α
  /-- The lock that an operation holds for its whole duration. -/
  lock : S.Op → Option Lock
  attempt : Input → State → (op : S.Op) → Except Panic (S.Res op × State)
  /-- The panic of an operation that finds its lock poisoned. -/
  poisoned : Panic
  attempt_ok : ∀ {input state op reply}, attempt input state op = .ok reply →
    reply = server.interp.answer input state op

/-- Every call the action makes in the pool passes its checks. -/
def Checked.Passes (checked : Checked S Request Input Disturbance State α Lock Panic)
    (pool : Pool S Request State α) (action : Action Request Input Disturbance) : Prop :=
  ∀ input op, pool.Calls action input op → ∃ reply, checked.attempt input pool.state op = .ok reply

/-- A pool, the locks that are poisoned, and the panics so far with their threads. -/
structure CheckedPool (S : Signature) (Request State α Lock Panic : Type) where
  pool : Pool S Request State α
  poisoned : List Lock
  panics : List (Nat × Panic)

namespace CheckedPool

variable [DecidableEq Lock]

def initial (state : State) : CheckedPool S Request State α Lock Panic := ⟨.initial state, [], []⟩

/-- An operation takes its lock before anything else. -/
def attempt (checked : Checked S Request Input Disturbance State α Lock Panic)
    (current : CheckedPool S Request State α Lock Panic) (input : Input) (op : S.Op) :
    Except Panic (S.Res op × State) :=
  if (checked.lock op).any fun lock => lock ∈ current.poisoned then .error checked.poisoned
  else checked.attempt input current.pool.state op

/-- One action.  A thread that panics is dropped, like one that waits. -/
def step (checked : Checked S Request Input Disturbance State α Lock Panic)
    (current : CheckedPool S Request State α Lock Panic)
    (action : Action Request Input Disturbance) : CheckedPool S Request State α Lock Panic :=
  match action with
  | .advance index input =>
      match current.pool.threads[index]? with
      | none => current
      | some thread =>
          match thread.pending? with
          | none => current
          | some ⟨op, next⟩ =>
              match current.attempt checked input op with
              | .ok reply =>
                  { current with
                    pool :=
                      { state := reply.2
                        threads := current.pool.threads.set index
                          { thread with
                            history := thread.history ++ [⟨op, reply.1⟩], rest := next reply.1 }
                        log := current.pool.log ++ [(index, ⟨op, reply.1⟩)] } }
              | .error panic =>
                  -- What the operation has written by then is behind its poisoned lock,
                  -- where nobody reads it any more.
                  { pool :=
                      { current.pool with
                        state := checked.server.onDrop thread.history current.pool.state
                        threads := current.pool.threads.set index { thread with dropped := true } }
                    poisoned := (checked.lock op).elim current.poisoned current.poisoned.insert
                    panics := current.panics ++ [(index, panic)] }
  | action => { current with pool := current.pool.step checked.server action }

/-- The pool after a run from the given state. -/
def after (checked : Checked S Request Input Disturbance State α Lock Panic) (state : State)
    (actions : List (Action Request Input Disturbance)) :
    CheckedPool S Request State α Lock Panic :=
  actions.foldl (step checked) (initial state)

variable (checked : Checked S Request Input Disturbance State α Lock Panic)

theorem after_snoc (state : State) (actions : List (Action Request Input Disturbance))
    (action : Action Request Input Disturbance) :
    after checked state (actions ++ [action]) = (after checked state actions).step checked action :=
  List.foldl_concat ..

/-- An operation that does not panic has passed its checks. -/
theorem attempt_of_ok {current : CheckedPool S Request State α Lock Panic} {input : Input}
    {op : S.Op} {reply : S.Res op × State} (h : current.attempt checked input op = .ok reply) :
    checked.attempt input current.pool.state op = .ok reply := by
  unfold attempt at h
  split at h
  · cases h
  · exact h

/-- What an action does: it is the action of the server, or a call panics. -/
theorem step_cases (current : CheckedPool S Request State α Lock Panic)
    (action : Action Request Input Disturbance) :
    (current.step checked action =
        { current with pool := current.pool.step checked.server action } ∧
      ∀ input op, current.pool.Calls action input op →
        ∃ reply, current.attempt checked input op = .ok reply) ∨
    ∃ input op panic index, current.pool.Calls action input op ∧
      current.attempt checked input op = .error panic ∧
      (current.step checked action).panics = current.panics ++ [(index, panic)] := by
  cases action with
  | arrive _ | cancel _ | disturb _ =>
      refine Or.inl ⟨rfl, ?_⟩
      rintro input op ⟨_, _, _, ⟨⟩, -⟩
  | advance index input =>
      cases hthread : current.pool.threads[index]? with
      | none =>
          refine Or.inl ⟨by simp only [step, Pool.step, hthread], ?_⟩
          rintro _ op ⟨_, _, _, ⟨⟩, hother, -⟩
          cases hthread.symm.trans hother
      | some thread =>
          cases hpending : thread.pending? with
          | none =>
              refine Or.inl ⟨by simp only [step, Pool.step, hthread, hpending], ?_⟩
              rintro _ op ⟨_, _, _, ⟨⟩, hother, hcalled⟩
              obtain rfl := Option.some.inj (hthread.symm.trans hother)
              cases hpending.symm.trans hcalled
          | some call =>
              obtain ⟨op, next⟩ := call
              cases hreply : current.attempt checked input op with
              | ok reply =>
                  have hanswer : reply = checked.server.interp.answer input current.pool.state op :=
                    checked.attempt_ok (attempt_of_ok checked hreply)
                  refine Or.inl ⟨?_, ?_⟩
                  · simp only [step, Pool.step, hthread, hpending, hreply, hanswer]
                  · rintro _ other ⟨_, _, _, ⟨⟩, hother, hcalled⟩
                    obtain rfl := Option.some.inj (hthread.symm.trans hother)
                    obtain ⟨rfl, -⟩ := Sigma.mk.inj (Option.some.inj (hpending.symm.trans hcalled))
                    exact ⟨reply, hreply⟩
              | error panic =>
                  refine Or.inr ⟨input, op, panic, index,
                    ⟨index, thread, next, rfl, hthread, hpending⟩, hreply, ?_⟩
                  simp only [step, hthread, hpending, hreply]

/-- Without poisoned locks, an action that passes its checks is the action of the server. -/
theorem step_of_passes {current : CheckedPool S Request State α Lock Panic}
    {action : Action Request Input Disturbance} (hpoisoned : current.poisoned = [])
    (h : checked.Passes current.pool action) :
    current.step checked action =
      { current with pool := current.pool.step checked.server action } := by
  rcases step_cases checked current action with ⟨hstep, -⟩ |
    ⟨input, op, panic, index, hcalls, hpanic, -⟩
  · exact hstep
  · obtain ⟨reply, hreply⟩ := h input op hcalls
    simp [attempt, hpoisoned, hreply] at hpanic

/-- An action without a panic passes its checks. -/
theorem passes_of_step {current : CheckedPool S Request State α Lock Panic}
    {action : Action Request Input Disturbance}
    (h : (current.step checked action).panics = []) :
    current.panics = [] ∧ checked.Passes current.pool action := by
  rcases step_cases checked current action with ⟨hstep, hpasses⟩ |
    ⟨input, op, panic, index, -, -, hpanics⟩
  · rw [hstep] at h
    refine ⟨h, fun input op hcalls => ?_⟩
    obtain ⟨reply, hreply⟩ := hpasses input op hcalls
    exact ⟨reply, attempt_of_ok checked hreply⟩
  · rw [hpanics] at h
    exact absurd h (by simp)

/-- A run whose calls all pass their checks is the run of the server. -/
theorem after_of_passes (state : State) (actions : List (Action Request Input Disturbance))
    (h : ∀ before action rest, actions = before ++ action :: rest →
      checked.Passes (Pool.after checked.server state before) action) :
    after checked state actions = ⟨Pool.after checked.server state actions, [], []⟩ := by
  induction actions using List.reverseRecOn with
  | nil => rfl
  | append_singleton actions action ih =>
      have hbefore : after checked state actions =
          ⟨Pool.after checked.server state actions, [], []⟩ := by
        refine ih fun before other rest hsplit => h before other (rest ++ [action]) ?_
        rw [hsplit, List.append_assoc, List.cons_append]
      have hpasses : checked.Passes (after checked state actions).pool action := by
        rw [hbefore]
        exact h actions action [] rfl
      rw [after_snoc, step_of_passes checked (by rw [hbefore]) hpasses, hbefore, Pool.after_snoc]

/-- **Freedom from panics.**  No thread panics in a run if and only if every call of the
run of the server passes its checks. -/
theorem panics_eq_nil_iff (state : State) (actions : List (Action Request Input Disturbance)) :
    (after checked state actions).panics = [] ↔
      ∀ before action rest, actions = before ++ action :: rest →
        checked.Passes (Pool.after checked.server state before) action := by
  constructor
  · induction actions using List.reverseRecOn with
    | nil =>
        intro _ before action rest hsplit
        simp at hsplit
    | append_singleton actions last ih =>
        intro hfree before action rest hsplit
        rw [after_snoc] at hfree
        obtain ⟨hbefore, hlast⟩ := passes_of_step checked hfree
        have hpasses := ih hbefore
        -- The action is the last one, or one of those before it.
        rcases List.eq_nil_or_concat rest with rfl | ⟨rest, other, rfl⟩
        · obtain ⟨rfl, hsame⟩ := List.append_inj' hsplit rfl
          obtain rfl := (List.cons.inj hsame).1
          rwa [after_of_passes checked state actions hpasses] at hlast
        · refine hpasses before action rest ?_
          rw [List.concat_eq_append, ← List.cons_append, ← List.append_assoc] at hsplit
          exact (List.append_inj' hsplit rfl).1
  · intro h
    rw [after_of_passes checked state actions h]

end CheckedPool
end Library
end ApiGateway
