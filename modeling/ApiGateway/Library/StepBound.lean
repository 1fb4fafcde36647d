import ApiGateway.Library.Interleaving

/-!
# Programs with a bounded number of calls

`EndsWithin` bounds the calls of a program whatever they are answered, and its rules follow the
structure of the program.  In a pool this is wait-freedom: a thread whose program is within a
bound has ended once it has been scheduled that many times, whatever the other threads do in
between.
-/

namespace ApiGateway
namespace Library

variable {S : Signature} {α β : Type}

namespace Program

/-- The program makes at most `bound` calls. -/
def EndsWithin : Program S α → Nat → Prop
  | .done _, _ => True
  | .call _ next, bound => 0 < bound ∧ ∀ answer, (next answer).EndsWithin (bound - 1)

theorem EndsWithin.mono {program : Program S α} {bound larger : Nat}
    (h : program.EndsWithin bound) (hle : bound ≤ larger) : program.EndsWithin larger := by
  induction program generalizing bound larger with
  | done value => trivial
  | call op next ih =>
      obtain ⟨hpos, hnext⟩ := h
      refine ⟨by omega, fun answer => ?_⟩
      have hrest : bound - 1 ≤ larger - 1 := by omega
      exact ih answer (hnext answer) hrest

theorem endsWithin_perform {op : S.Op} {next : S.Res op → Program S β} {bound : Nat}
    (h : ∀ answer, (next answer).EndsWithin bound) : (perform op >>= next).EndsWithin (bound + 1) :=
  ⟨Nat.succ_pos bound, h⟩

/-- The bounds of two programs add up when one follows the other. -/
theorem endsWithin_bind {program : Program S α} {next : α → Program S β} {bound : Nat}
    (first second : Nat) (hfirst : program.EndsWithin first)
    (hsecond : ∀ trace value, Returns program trace value → (next value).EndsWithin second)
    (hbound : first + second ≤ bound) : (program >>= next).EndsWithin bound := by
  induction program generalizing first bound with
  | done value =>
      have hrest := hsecond [] value (.refl _)
      exact hrest.mono (by omega)
  | call op cont ih =>
      obtain ⟨hpos, hcont⟩ := hfirst
      refine ⟨by omega, fun answer => ?_⟩
      refine ih answer (first - 1) (hcont answer) (fun trace value hreturns => ?_) (by omega)
      exact hsecond (⟨op, answer⟩ :: trace) value (.call op cont answer hreturns)

/-- What has been called counts against the bound. -/
theorem EndsWithin.of_steps {program rest : Program S α} {bound : Nat} {trace : List (Event S)}
    (h : program.EndsWithin bound) (hsteps : Steps program trace rest) :
    trace.length ≤ bound ∧ rest.EndsWithin (bound - trace.length) := by
  induction hsteps generalizing bound with
  | refl program => exact ⟨Nat.zero_le _, h⟩
  | call op next answer _ ih =>
      obtain ⟨hlength, hrest⟩ := ih (h.2 answer)
      have hpos := h.1
      refine ⟨?_, ?_⟩
      · rw [List.length_cons]
        omega
      · rwa [List.length_cons, Nat.add_comm, ← Nat.sub_sub]

/-- A program that has used up its bound is done. -/
theorem EndsWithin.isDone_of_steps {program rest : Program S α} {bound : Nat}
    {trace : List (Event S)} (h : program.EndsWithin bound) (hsteps : Steps program trace rest)
    (hlength : bound ≤ trace.length) : rest.isDone = true := by
  have hrest := (h.of_steps hsteps).2
  cases rest with
  | done value => rfl
  | call op next =>
      have hpos := hrest.1
      omega

end Program

open Program

variable {Request Input Disturbance State : Type}

/-- How often a thread is scheduled. -/
def turnsOf (index : Nat) (actions : List (Action Request Input Disturbance)) : Nat :=
  actions.countP fun action =>
    match action with
    | .advance caller _ => caller == index
    | _ => false

/-- The thread has been dropped or has returned. -/
def Thread.isOver (thread : Thread S Request α) : Bool := thread.dropped || thread.rest.isDone

theorem Thread.pending?_eq_none_iff {thread : Thread S Request α} :
    thread.pending? = none ↔ thread.isOver = true := by
  obtain ⟨request, history, rest, dropped⟩ := thread
  cases dropped with
  | true => exact ⟨fun _ => rfl, fun _ => rfl⟩
  | false =>
      cases rest with
      | done value => exact ⟨fun _ => rfl, fun _ => rfl⟩
      | call op next => exact ⟨nofun, nofun⟩

namespace Pool

variable (server : Server S Request Input Disturbance State α)

/-- What an action does to a thread: one that is over stays so, one that is scheduled makes a
call, and only its own cancellation drops it. -/
theorem thread_step {pool : Pool S Request State α} {index : Nat} {thread : Thread S Request α}
    (hthread : pool.threads[index]? = some thread)
    (action : Action Request Input Disturbance) :
    ∃ later, (pool.step server action).threads[index]? = some later ∧
      later.request = thread.request ∧
      (later.isOver = true ∨
        thread.history.length + turnsOf index [action] ≤ later.history.length) ∧
      (thread.isOver = true → later.isOver = true) ∧
      (action ≠ .cancel index → later.dropped = thread.dropped) := by
  have hlt := (List.getElem?_eq_some_iff.mp hthread).1
  rcases step_action_cases server pool action with ⟨request, rfl, hpool⟩ |
    ⟨caller, running, op, next, input, rfl, hrunning, hpending, hpool⟩ |
    ⟨caller, running, op, next, rfl, hrunning, hpending, -, hpool⟩ |
    ⟨disturbance, rfl, hpool⟩ | hpool
  · rw [hpool]
    exact ⟨thread, by rw [List.getElem?_append_left hlt, hthread], rfl, Or.inr (Nat.le_refl _), id,
      fun _ => rfl⟩
  · rw [hpool]
    by_cases hmine : caller = index
    · subst hmine
      obtain rfl : running = thread := Option.some.inj (hrunning.symm.trans hthread)
      refine ⟨_, List.getElem?_set_self hlt, rfl, Or.inr ?_, fun hover => ?_, fun _ => rfl⟩
      · simp [turnsOf]
      · rw [Thread.pending?_eq_none_iff.mpr hover] at hpending
        cases hpending
    · refine ⟨thread, by rw [List.getElem?_set_ne hmine, hthread], rfl, Or.inr ?_, id,
        fun _ => rfl⟩
      simp [turnsOf, hmine]
  · rw [hpool]
    by_cases hmine : caller = index
    · subst hmine
      obtain rfl : running = thread := Option.some.inj (hrunning.symm.trans hthread)
      exact ⟨_, List.getElem?_set_self hlt, rfl, Or.inl rfl, fun _ => rfl, fun h => absurd rfl h⟩
    · exact ⟨thread, by rw [List.getElem?_set_ne hmine, hthread], rfl, Or.inr (Nat.le_refl _), id,
        fun _ => rfl⟩
  · rw [hpool]
    exact ⟨thread, hthread, rfl, Or.inr (Nat.le_refl _), id, fun _ => rfl⟩
  · rw [hpool]
    refine ⟨thread, hthread, rfl, ?_, id, fun _ => rfl⟩
    cases hpending : thread.pending? with
    | none => exact Or.inl (Thread.pending?_eq_none_iff.mp hpending)
    | some pending =>
        -- Had it been its turn, its call would be in the log.
        have hturns : turnsOf index [action] = 0 := by
          cases action with
          | advance caller input =>
              have hother : caller ≠ index := by
                rintro rfl
                have hlog := congrArg (fun pool => pool.log.length) hpool
                simp [step, hthread, hpending] at hlog
              simp [turnsOf, hother]
          | arrive _ | cancel _ | disturb _ => rfl
        exact Or.inr (by omega)

/-- The same for a run. -/
theorem thread_run {state : State} (actions more : List (Action Request Input Disturbance))
    {index : Nat} {thread : Thread S Request α}
    (hthread : (after server state actions).threads[index]? = some thread) :
    ∃ later, (after server state (actions ++ more)).threads[index]? = some later ∧
      later.request = thread.request ∧
      (later.isOver = true ∨ turnsOf index more ≤ later.history.length) ∧
      (.cancel index ∉ more → later.dropped = thread.dropped) := by
  induction more using List.reverseRecOn with
  | nil => exact ⟨thread, by simpa using hthread, rfl, Or.inr (Nat.zero_le _), fun _ => rfl⟩
  | append_singleton more action ih =>
      obtain ⟨earlier, hearlier, hrequest, hmoved, hdropped⟩ := ih
      obtain ⟨later, hlater, hsame, hcalled, hover, hstays⟩ := thread_step server hearlier action
      rw [← List.append_assoc, after_snoc]
      refine ⟨later, hlater, hsame.trans hrequest, ?_, fun hnone => ?_⟩
      · rcases hmoved with hdone | hlength
        · exact Or.inl (hover hdone)
        · refine hcalled.imp_right fun hmore => ?_
          have hcount : turnsOf index (more ++ [action]) =
              turnsOf index more + turnsOf index [action] := List.countP_append
          omega
      · rw [List.mem_append, List.mem_singleton, not_or] at hnone
        exact (hstays (Ne.symm hnone.2)).trans (hdropped hnone.1)

/-- **Wait-freedom.**  A thread whose program ends within a bound has returned once it has been
scheduled that often, whatever happens in between, unless it is dropped. -/
theorem returned_of_turns {bound : Nat} {state : State}
    (actions more : List (Action Request Input Disturbance)) {index : Nat}
    {thread : Thread S Request α}
    (hthread : (after server state actions).threads[index]? = some thread)
    (hbound : (server.start thread.request).EndsWithin bound) (hrunning : thread.dropped = false)
    (hkept : .cancel index ∉ more) (hturns : bound ≤ turnsOf index more) :
    ∃ later value, (after server state (actions ++ more)).threads[index]? = some later ∧
      later.request = thread.request ∧ later.dropped = false ∧ later.rest = .done value := by
  obtain ⟨later, hlater, hrequest, hmoved, hdropped⟩ := thread_run server actions more hthread
  have hsteps := (coherent_after server state (actions ++ more)).steps index later hlater
  rw [hrequest] at hsteps
  have hrest : later.rest.isDone = true := by
    rcases hmoved with hover | hlength
    · simpa [Thread.isOver, hdropped hkept, hrunning] using hover
    · exact hbound.isDone_of_steps hsteps (Nat.le_trans hturns hlength)
  cases hreturned : later.rest with
  | done value =>
      exact ⟨later, value, hlater, hrequest, (hdropped hkept).trans hrunning, hreturned⟩
  | call op next =>
      rw [hreturned] at hrest
      cases hrest

end Pool

end Library
end ApiGateway
