import Mathlib.Algebra.BigOperators.Group.List.Basic
import Mathlib.Algebra.Ring.Int.Defs
import ApiGateway.Library.Interleaving

/-!
# Quantities that threads have a share in

Many counters of a server are meant to count its threads: how many are running, how many
hold a resource.  A `Tally` is a quantity of the shared state together with the share that
each thread has in it, such that every step changes the quantity by as much as it changes
the share of the thread that makes it.  In every reachable pool the quantity is then the
sum of the shares.

A thread that is dropped does not run its remaining calls.  `Drops` says which actions
drop a thread.
-/

namespace ApiGateway
namespace Library

open Program

theorem sum_map_set {α : Type} (share : α → Int) (list : List α) {index : Nat} {old : α}
    (hold : list[index]? = some old) (new : α) :
    ((list.set index new).map share).sum + share old = (list.map share).sum + share new := by
  induction list generalizing index with
  | nil => cases hold
  | cons head list ih =>
      cases index with
      | zero =>
          obtain rfl := Option.some.inj hold
          simp only [List.set_cons_zero, List.map_cons, List.sum_cons]
          omega
      | succ index =>
          have htail := ih (List.getElem?_cons_succ ▸ hold)
          simp only [List.set_cons_succ, List.map_cons, List.sum_cons]
          omega

/-- A sum of shares, each at most the bound, of those that count. -/
theorem sum_le_countP_mul {α : Type} {share : α → Int} {counts : α → Bool} {bound : Nat}
    {list : List α} (h : ∀ a ∈ list, share a ≤ if counts a then (bound : Int) else 0) :
    (list.map share).sum ≤ list.countP counts * bound := by
  induction list with
  | nil => simp
  | cons head list ih =>
      have htail := ih fun a ha => h a (List.mem_cons_of_mem _ ha)
      have hhead := h head List.mem_cons_self
      rw [List.map_cons, List.sum_cons, List.countP_cons]
      cases hcounts : counts head with
      | true =>
          simp only [hcounts, if_true] at hhead ⊢
          rw [Nat.cast_add, Nat.cast_one, Int.add_mul, Int.one_mul]
          omega
      | false =>
          simp only [hcounts, Bool.false_eq_true, if_false] at hhead ⊢
          simpa using Int.add_le_add hhead htail

theorem sum_map_eq_countP {α : Type} {share : α → Int} {counts : α → Bool} {list : List α}
    (h : ∀ a ∈ list, share a = if counts a then 1 else 0) :
    (list.map share).sum = list.countP counts := by
  induction list with
  | nil => rfl
  | cons head list ih =>
      have htail := ih fun a ha => h a (List.mem_cons_of_mem _ ha)
      have hhead := h head List.mem_cons_self
      rw [List.map_cons, List.sum_cons, htail, hhead, List.countP_cons]
      cases counts head with
      | true => simp only [if_true]; omega
      | false => simp

theorem countP_or_of_disjoint {α : Type} {first second : α → Bool} {list : List α}
    (h : ∀ a ∈ list, first a = true → second a = false) :
    list.countP (fun a => first a || second a) = list.countP first + list.countP second := by
  induction list with
  | nil => rfl
  | cons head list ih =>
      have htail := ih fun a ha => h a (List.mem_cons_of_mem _ ha)
      have hhead := h head List.mem_cons_self
      simp only [List.countP_cons, htail]
      cases hfirst : first head with
      | true =>
          simp only [hhead hfirst, Bool.true_or, if_true]
          simp only [Bool.false_eq_true, if_false]
          omega
      | false =>
          simp only [Bool.false_or]
          simp only [Bool.false_eq_true, if_false]
          omega

variable {S : Signature} {Request Input Disturbance State α : Type}

/-- A quantity of the state and the share of each thread in it. -/
structure Tally (server : Server S Request Input Disturbance State α) where
  quantity : State → Int
  share : Thread S Request α → Int
  arrive : ∀ request, share ⟨request, [], server.start request, false⟩ = 0
  call : ∀ (thread : Thread S Request α) (op : S.Op) (next : S.Res op → Program S α)
    (input : Input) (state : State),
    Steps (server.start thread.request) thread.history (.call op next) →
    thread.pending? = some ⟨op, next⟩ →
      quantity (server.interp.answer input state op).2 + share thread =
        quantity state + share
          { thread with
            history := thread.history ++ [⟨op, (server.interp.answer input state op).1⟩]
            rest := next (server.interp.answer input state op).1 }
  drop : ∀ (thread : Thread S Request α) (op : S.Op) (next : S.Res op → Program S α)
    (state : State), thread.pending? = some ⟨op, next⟩ → server.awaits op = true →
      quantity (server.onDrop thread.history state) + share thread =
        quantity state + share { thread with dropped := true }
  disturb : ∀ disturbance state,
    quantity (server.disturb disturbance state) = quantity state

namespace Pool

variable {server : Server S Request Input Disturbance State α}

/-- In every reachable pool the quantity is the sum of the shares. -/
theorem quantity_after (tally : Tally server) {state : State} (hinit : tally.quantity state = 0)
    (actions : List (Action Request Input Disturbance)) :
    tally.quantity (after server state actions).state =
      ((after server state actions).threads.map tally.share).sum := by
  refine (after_induction server state (fun pool => Coherent server pool ∧
    tally.quantity pool.state = (pool.threads.map tally.share).sum)
    ⟨coherent_after server state [], by simpa [initial] using hinit⟩
    (fun pool action h => ⟨coherent_step server pool action h.1, ?_⟩) actions).2
  obtain ⟨hcoherent, hsum⟩ := h
  rcases step_action_cases server pool action with ⟨request, -, hpool⟩ |
    ⟨index, thread, op, next, input, -, hthread, hpending, hpool⟩ |
    ⟨index, thread, op, next, -, hthread, hpending, hawaits, hpool⟩ | ⟨disturbance, -, hpool⟩ |
    hpool
  · rw [hpool]
    simp only [List.map_append, List.map_cons, List.map_nil, List.sum_append, List.sum_singleton,
      tally.arrive, Int.add_zero]
    exact hsum
  · rw [hpool]
    have hsteps := hcoherent.steps index thread hthread
    rw [Thread.rest_of_pending? hpending] at hsteps
    have hcall := tally.call thread op next input pool.state hsteps hpending
    have hset := sum_map_set tally.share pool.threads hthread
      { thread with
        history := thread.history ++ [⟨op, (server.interp.answer input pool.state op).1⟩]
        rest := next (server.interp.answer input pool.state op).1 }
    simp only
    omega
  · rw [hpool]
    have hdrop := tally.drop thread op next pool.state hpending hawaits
    have hset := sum_map_set tally.share pool.threads hthread { thread with dropped := true }
    simp only
    omega
  · rw [hpool]
    exact (tally.disturb disturbance pool.state).trans hsum
  · rw [hpool]
    exact hsum

/-- The calls of one kind in the histories of all threads are those of the log. -/
theorem sum_countP_history (server : Server S Request Input Disturbance State α) (state : State)
    (counts : Event S → Bool) (actions : List (Action Request Input Disturbance)) :
    (((after server state actions).threads.map fun thread =>
        (thread.history.countP counts : Int)).sum) =
      ((after server state actions).log.countP fun entry => counts entry.2) := by
  refine after_induction server state (fun pool =>
    ((pool.threads.map fun thread => (thread.history.countP counts : Int)).sum) =
      (pool.log.countP fun entry => counts entry.2)) (by simp [initial]) ?_ actions
  intro pool action h
  rcases step_cases server pool action with ⟨request, hpool⟩ |
    ⟨index, thread, op, next, input, hthread, -, hpool⟩ | ⟨index, thread, hthread, hpool⟩ |
    ⟨_, hpool⟩ | hpool
  · rw [hpool]
    simpa using h
  · have hset := sum_map_set
      (fun thread : Thread S Request α => (thread.history.countP counts : Int)) pool.threads hthread
      { thread with
        history := thread.history ++ [⟨op, (server.interp.answer input pool.state op).1⟩]
        rest := next (server.interp.answer input pool.state op).1 }
    rw [hpool]
    simp only [List.countP_append, List.countP_singleton] at hset ⊢
    omega
  · have hset := sum_map_set
      (fun thread : Thread S Request α => (thread.history.countP counts : Int)) pool.threads hthread
      { thread with dropped := true }
    rw [hpool]
    simp only at hset ⊢
    omega
  · rw [hpool]
    exact h
  · rw [hpool]
    exact h

/-! ## Dropped threads -/

/-- The action drops a waiting thread. -/
def Drops (server : Server S Request Input Disturbance State α) (pool : Pool S Request State α) :
    Action Request Input Disturbance → Prop
  | .cancel index =>
      ∃ thread op next, pool.threads[index]? = some thread ∧
        thread.pending? = some ⟨op, next⟩ ∧ server.awaits op = true
  | _ => False

/-- Some thread has been dropped. -/
def HasDropped (pool : Pool S Request State α) : Prop :=
  ∃ (index : Nat) (thread : Thread S Request α),
    pool.threads[index]? = some thread ∧ thread.dropped = true

theorem hasDropped_of_step {pool : Pool S Request State α}
    {action : Action Request Input Disturbance} (h : (pool.step server action).HasDropped) :
    pool.HasDropped ∨ pool.Drops server action := by
  obtain ⟨index, thread, hthread, hdropped⟩ := h
  rcases step_action_cases server pool action with ⟨request, -, hpool⟩ |
    ⟨caller, running, op, next, input, -, hrunning, hpending, hpool⟩ |
    ⟨caller, running, op, next, rfl, hrunning, hpending, hawaits, -⟩ | ⟨disturbance, -, hpool⟩ |
    hpool
  · rw [hpool] at hthread
    rcases getElem?_arrive hthread with hold | ⟨-, rfl⟩
    · exact Or.inl ⟨index, thread, hold, hdropped⟩
    · cases hdropped
  · rw [hpool] at hthread
    rcases getElem?_update hthread with ⟨-, rfl⟩ | ⟨-, hold⟩
    · exact Or.inl ⟨caller, running, hrunning, hdropped⟩
    · exact Or.inl ⟨index, thread, hold, hdropped⟩
  · exact Or.inr ⟨running, op, next, hrunning, hpending, hawaits⟩
  · rw [hpool] at hthread
    exact Or.inl ⟨index, thread, hthread, hdropped⟩
  · rw [hpool] at hthread
    exact Or.inl ⟨index, thread, hthread, hdropped⟩

/-- A dropped thread stays dropped. -/
theorem HasDropped.step {pool : Pool S Request State α} (h : pool.HasDropped)
    (action : Action Request Input Disturbance) : (pool.step server action).HasDropped := by
  obtain ⟨index, thread, hthread, hdropped⟩ := h
  -- Another thread is the one that is replaced: a dropped one makes no call.
  have hother : ∀ {caller running op next}, pool.threads[caller]? = some running →
      running.pending? = some ⟨op, next⟩ → ∀ new : Thread S Request α,
        (pool.threads.set caller new)[index]? = some thread := by
    intro caller running op next hrunning hpending new
    have hne : caller ≠ index := by
      rintro rfl
      obtain rfl := Option.some.inj (hrunning.symm.trans hthread)
      cases (Thread.dropped_of_pending? hpending).symm.trans hdropped
    rw [List.getElem?_set_ne hne]
    exact hthread
  refine ⟨index, thread, ?_, hdropped⟩
  rcases step_action_cases server pool action with ⟨request, -, hpool⟩ |
    ⟨caller, running, op, next, input, -, hrunning, hpending, hpool⟩ |
    ⟨caller, running, op, next, -, hrunning, hpending, -, hpool⟩ | ⟨disturbance, -, hpool⟩ | hpool
  · rw [hpool]
    exact (List.getElem?_append_left (List.getElem?_eq_some_iff.mp hthread).1).trans hthread
  · rw [hpool]
    exact hother hrunning hpending _
  · rw [hpool]
    exact hother hrunning hpending _
  · rw [hpool]
    exact hthread
  · rw [hpool]
    exact hthread

theorem hasDropped_of_drops {pool : Pool S Request State α}
    {action : Action Request Input Disturbance} (h : pool.Drops server action) :
    (pool.step server action).HasDropped := by
  cases action with
  | cancel index =>
      obtain ⟨thread, op, next, hthread, hpending, hawaits⟩ := h
      refine ⟨index, { thread with dropped := true }, ?_, rfl⟩
      simp only [step, hthread, hpending, hawaits, if_true]
      exact List.getElem?_set_self (List.getElem?_eq_some_iff.mp hthread).1
  | _ => cases h

theorem hasDropped_step (pool : Pool S Request State α)
    (action : Action Request Input Disturbance) :
    (pool.step server action).HasDropped ↔ pool.HasDropped ∨ pool.Drops server action := by
  constructor
  · exact hasDropped_of_step
  · rintro (hdropped | hdrops)
    · exact hdropped.step action
    · exact hasDropped_of_drops hdrops

/-- A dropped thread was waiting. -/
theorem awaits_of_dropped (server : Server S Request Input Disturbance State α) (state : State)
    (actions : List (Action Request Input Disturbance)) {index : Nat}
    {thread : Thread S Request α}
    (hthread : (after server state actions).threads[index]? = some thread)
    (hdropped : thread.dropped = true) :
    ∃ op next, thread.rest = .call op next ∧ server.awaits op = true := by
  suffices h : ∀ (index : Nat) (thread : Thread S Request α),
      (after server state actions).threads[index]? = some thread → thread.dropped = true →
        ∃ op next, thread.rest = .call op next ∧ server.awaits op = true from
    h index thread hthread hdropped
  refine after_induction server state (fun pool => ∀ (index : Nat) (thread : Thread S Request α),
    pool.threads[index]? = some thread → thread.dropped = true →
      ∃ op next, thread.rest = .call op next ∧ server.awaits op = true)
    (by simp [initial]) (fun pool action h index thread hthread hdropped => ?_) actions
  rcases step_action_cases server pool action with ⟨request, -, hpool⟩ |
    ⟨caller, running, op, next, input, -, hrunning, hpending, hpool⟩ |
    ⟨caller, running, op, next, -, hrunning, hpending, hawaits, hpool⟩ | ⟨disturbance, -, hpool⟩ |
    hpool
  · rw [hpool] at hthread
    rcases getElem?_arrive hthread with hold | ⟨-, rfl⟩
    · exact h index thread hold hdropped
    · cases hdropped
  · rw [hpool] at hthread
    rcases getElem?_update hthread with ⟨-, rfl⟩ | ⟨-, hold⟩
    · cases (Thread.dropped_of_pending? hpending).symm.trans hdropped
    · exact h index thread hold hdropped
  · rw [hpool] at hthread
    rcases getElem?_update hthread with ⟨-, rfl⟩ | ⟨-, hold⟩
    · have hrest := Thread.rest_of_pending? hpending
      exact ⟨op, next, hrest, hawaits⟩
    · exact h index thread hold hdropped
  · rw [hpool] at hthread
    exact h index thread hthread hdropped
  · rw [hpool] at hthread
    exact h index thread hthread hdropped

/-- A thread has been dropped when some action of the run has dropped one. -/
theorem hasDropped_after (server : Server S Request Input Disturbance State α) (state : State)
    (actions : List (Action Request Input Disturbance)) :
    (after server state actions).HasDropped ↔
      ∃ before action rest, actions = before ++ action :: rest ∧
        (after server state before).Drops server action := by
  induction actions using List.reverseRecOn with
  | nil => simp [HasDropped, after, initial]
  | append_singleton actions last ih =>
      rw [after_snoc, hasDropped_step, ih]
      constructor
      · rintro (⟨before, action, rest, rfl, hdrops⟩ | hlast)
        · exact ⟨before, action, rest ++ [last], by simp, hdrops⟩
        · exact ⟨actions, last, [], rfl, hlast⟩
      · rintro ⟨before, action, rest, heq, hdrops⟩
        cases rest using List.reverseRecOn with
        | nil =>
            obtain ⟨rfl, hlast⟩ := List.append_inj' heq rfl
            obtain rfl := (List.cons.inj hlast).1
            exact Or.inr hdrops
        | append_singleton rest other =>
            rw [← List.cons_append, ← List.append_assoc] at heq
            exact Or.inl ⟨before, action, rest, (List.append_inj' heq rfl).1, hdrops⟩

end Pool
end Library
end ApiGateway
