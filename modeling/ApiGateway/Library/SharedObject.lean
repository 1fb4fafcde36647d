import ApiGateway.Library.Interleaving

/-!
# One shared object under many threads

A `SharedObject` is a part of the shared state that has calls of its own: an operation of a
thread is a call on it, or leaves it alone.  Since operations are atomic, every run of the
threads is a sequential run of the object: `linearized_after` gives the calls in the order
of the log, with the answers that the object alone would have given, and the clock readings
of the calls never decrease along them.

What is known of the sequential object thereby holds in every interleaving.
-/

namespace ApiGateway
namespace Library

open Program

variable {S : Signature} {Request Input Disturbance State α Cell Call Reply : Type}

/-- A part of the state, and which operations are calls on it.  Only the permitted operations
matter, and no thread makes any other. -/
structure SharedObject (server : Server S Request Input Disturbance State α)
    (Cell Call Reply : Type) where
  cell : State → Cell
  step : Cell → Call → Reply × Cell
  /-- The operations that are calls on the object. -/
  touches : S.Op → Bool
  /-- How an operation and its answer show the call and the reply. -/
  shows : Event S → Call → Reply → Prop
  /-- The clock readings of a call, in order. -/
  instants : Call → List Instant
  clock : State → Instant
  permitted : S.Op → Prop
  makes : ∀ request, (server.start request).Makes permitted
  called : ∀ input state op, permitted op → touches op = true →
    ∃ made, cell (server.interp.answer input state op).2 = (step (cell state) made).2 ∧
      shows ⟨op, (server.interp.answer input state op).1⟩ made (step (cell state) made).1 ∧
      (clock state :: instants made ++ [clock (server.interp.answer input state op).2]).Pairwise
        (· ≤ ·)
  untouched : ∀ input state op, permitted op → touches op = false →
    cell (server.interp.answer input state op).2 = cell state ∧
      clock state ≤ clock (server.interp.answer input state op).2
  drop : ∀ history state, cell (server.onDrop history state) = cell state ∧
    clock state ≤ clock (server.onDrop history state)
  disturb : ∀ disturbance state, cell (server.disturb disturbance state) = cell state ∧
    clock state ≤ clock (server.disturb disturbance state)

namespace SharedObject

variable {server : Server S Request Input Disturbance State α}
  (object : SharedObject server Cell Call Reply)

/-- The calls on the object so far, each with the event that shows it. -/
structure Linearized (first : Cell) (pool : Pool S Request State α)
    (calls : List (Call × Event S)) : Prop where
  cell : object.cell pool.state = run object.step first (calls.map Prod.fst)
  logged : calls.map Prod.snd =
    (pool.log.map Prod.snd).filter fun event => object.touches event.1
  shows : ∀ before made rest, calls = before ++ made :: rest →
    object.shows made.2 made.1 (object.step (run object.step first (before.map Prod.fst)) made.1).1
  ordered : (calls.flatMap (fun made => object.instants made.1) ++
    [object.clock pool.state]).Pairwise (· ≤ ·)

variable {object} {first : Cell} {pool : Pool S Request State α} {calls : List (Call × Event S)}

namespace Linearized

/-- Nothing that leaves the object and the log alone changes anything. -/
theorem keep (h : object.Linearized first pool calls) {state : State}
    (hcell : object.cell state = object.cell pool.state)
    (hclock : object.clock pool.state ≤ object.clock state)
    (threads : List (Thread S Request α)) :
    object.Linearized first ⟨state, threads, pool.log⟩ calls := by
  refine ⟨hcell.trans h.cell, h.logged, h.shows, ?_⟩
  have hordered := h.ordered
  rw [List.pairwise_append] at hordered ⊢
  refine ⟨hordered.1, List.pairwise_singleton _ _, fun earlier hearlier now hnow => ?_⟩
  rw [List.mem_singleton.mp hnow]
  exact Nat.le_trans (hordered.2.2 earlier hearlier _ (List.mem_singleton.mpr rfl)) hclock

theorem untouched (h : object.Linearized first pool calls) {input : Input} {op : S.Op}
    (hpermitted : object.permitted op) (htouches : object.touches op = false) (index : Nat)
    (threads : List (Thread S Request α)) :
    object.Linearized first
      ⟨(server.interp.answer input pool.state op).2, threads,
        pool.log ++ [(index, ⟨op, (server.interp.answer input pool.state op).1⟩)]⟩ calls := by
  obtain ⟨hcell, hclock⟩ := object.untouched input pool.state op hpermitted htouches
  have hkept := h.keep hcell hclock threads
  refine ⟨hkept.cell, ?_, hkept.shows, hkept.ordered⟩
  rw [h.logged]
  simp [htouches]

/-- The calls shown before the last one are shown as before. -/
theorem shows_snoc (h : object.Linearized first pool calls) {new : Call × Event S}
    (hnew : object.shows new.2 new.1
      (object.step (run object.step first (calls.map Prod.fst)) new.1).1) :
    ∀ before made rest, calls ++ [new] = before ++ made :: rest →
      object.shows made.2 made.1
        (object.step (run object.step first (before.map Prod.fst)) made.1).1 := by
  intro before made rest hsplit
  cases rest using List.reverseRecOn with
  | nil =>
      obtain ⟨rfl, hmade⟩ := List.append_inj' hsplit rfl
      obtain rfl := (List.cons.inj hmade).1
      exact hnew
  | append_singleton rest last =>
      rw [← List.cons_append, ← List.append_assoc] at hsplit
      exact h.shows before made rest (List.append_inj' hsplit rfl).1

theorem called (h : object.Linearized first pool calls) {input : Input} {op : S.Op}
    (hpermitted : object.permitted op) (htouches : object.touches op = true) (index : Nat)
    (threads : List (Thread S Request α)) :
    ∃ new, object.Linearized first
      ⟨(server.interp.answer input pool.state op).2, threads,
        pool.log ++ [(index, ⟨op, (server.interp.answer input pool.state op).1⟩)]⟩
      (calls ++ [new]) := by
  obtain ⟨made, hcell, hshows, hinstants⟩ :=
    object.called input pool.state op hpermitted htouches
  rw [h.cell] at hcell hshows
  refine ⟨(made, ⟨op, (server.interp.answer input pool.state op).1⟩), ?_, ?_, ?_, ?_⟩
  · rw [List.map_append, run_append]
    exact hcell
  · simp [h.logged, htouches]
  · exact h.shows_snoc hshows
  · -- All readings before are at most the clock, and those of the call come after it.
    have hordered := h.ordered
    rw [List.pairwise_append] at hordered
    simp only [List.cons_append, List.pairwise_cons] at hinstants
    rw [List.flatMap_append, List.append_assoc, List.pairwise_append]
    simp only [List.flatMap_cons, List.flatMap_nil, List.append_nil]
    refine ⟨hordered.1, hinstants.2, fun earlier hearlier later hlater => ?_⟩
    exact Nat.le_trans (hordered.2.2 earlier hearlier _ (List.mem_singleton.mpr rfl))
      (hinstants.1 later hlater)

end Linearized

/-- **Every run is a sequential run of the object.** -/
theorem linearized_after (object : SharedObject server Cell Call Reply) (state : State)
    (actions : List (Action Request Input Disturbance)) :
    ∃ calls, object.Linearized (object.cell state) (Pool.after server state actions) calls := by
  induction actions using List.reverseRecOn with
  | nil => exact ⟨[], rfl, rfl, by simp, by simp⟩
  | append_singleton actions action ih =>
      obtain ⟨calls, h⟩ := ih
      have hcoherent := Pool.coherent_after server state actions
      rw [Pool.after_snoc]
      rcases Pool.step_cases server (Pool.after server state actions) action with ⟨_, hpool⟩ |
        ⟨index, thread, op, next, input, hthread, hrest, hpool⟩ | ⟨_, thread, -, hpool⟩ |
        ⟨disturbance, hpool⟩ | hpool
      · rw [hpool]
        exact ⟨calls, h.keep rfl (Nat.le_refl _) _⟩
      · rw [hpool]
        have hsteps := hcoherent.steps index thread hthread
        rw [hrest] at hsteps
        have hpermitted : object.permitted op :=
          (object.makes thread.request).of_mem
            (hsteps.snoc (server.interp.answer input (Pool.after server state actions).state op).1)
            (List.mem_append_right _ (List.mem_singleton.mpr rfl))
        cases htouches : object.touches op with
        | true =>
            obtain ⟨new, hnew⟩ := h.called hpermitted htouches index _
            exact ⟨calls ++ [new], hnew⟩
        | false => exact ⟨calls, h.untouched hpermitted htouches index _⟩
      · rw [hpool]
        obtain ⟨hcell, hclock⟩ := object.drop thread.history (Pool.after server state actions).state
        exact ⟨calls, h.keep hcell hclock _⟩
      · rw [hpool]
        obtain ⟨hcell, hclock⟩ := object.disturb disturbance (Pool.after server state actions).state
        exact ⟨calls, h.keep hcell hclock _⟩
      · rw [hpool]
        exact ⟨calls, h⟩

end SharedObject
end Library
end ApiGateway
