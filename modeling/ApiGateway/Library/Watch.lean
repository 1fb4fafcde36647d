import ApiGateway.Library.Interleaving

/-!
# Watching a part of the shared state

A `Watch` follows a part of the shared state through the calls alone: `next` is what a
call makes of the part, and `tells` is what its answer says about the part before it.
What a program does to the part can then be proved from its traces, without the rest of
the state, for every trace whose answers tell the truth: that is `Shows`.

`Follows` ties a watch to a server.  When nobody else makes a call while a thread runs,
its calls are told the truth about the part, and leave the part as the watch says.
-/

namespace ApiGateway
namespace Library

open Program

/-- How a part of type `V` of the state is changed by calls, and what they tell of it. -/
structure Watch (S : Signature) (V : Type) where
  next : V → Event S → V
  tells : V → Event S → Prop

variable {S : Signature} {V α β : Type}

namespace Watch

/-- The part after the calls of a trace. -/
def after (watch : Watch S V) (part : V) (trace : List (Event S)) : V :=
  trace.foldl watch.next part

/-- Every answer of the trace tells the truth. -/
def Told (watch : Watch S V) : V → List (Event S) → Prop
  | _, [] => True
  | part, event :: trace => watch.tells part event ∧ watch.Told (watch.next part event) trace

variable {watch : Watch S V}

@[simp] theorem after_nil (part : V) : watch.after part [] = part := rfl

@[simp] theorem after_cons (part : V) (event : Event S) (trace : List (Event S)) :
    watch.after part (event :: trace) = watch.after (watch.next part event) trace := rfl

@[simp] theorem after_append (part : V) (first second : List (Event S)) :
    watch.after part (first ++ second) = watch.after (watch.after part first) second :=
  List.foldl_append

@[simp] theorem told_append (part : V) (first second : List (Event S)) :
    watch.Told part (first ++ second) ↔
      watch.Told part first ∧ watch.Told (watch.after part first) second := by
  induction first generalizing part with
  | nil => simp [Told]
  | cons event first ih => simp [Told, ih, and_assoc]

/-- A relation that is reflexive and transitive and kept by every call of a trace holds
between the part before and after it. -/
theorem after_related (related : V → V → Prop) (hrefl : ∀ part, related part part)
    (htrans : ∀ first second third, related first second → related second third →
      related first third)
    {trace : List (Event S)}
    (h : ∀ event ∈ trace, ∀ part, related part (watch.next part event)) (part : V) :
    related part (watch.after part trace) := by
  induction trace generalizing part with
  | nil => exact hrefl part
  | cons event trace ih =>
      have hhead := h event List.mem_cons_self part
      have htail := ih (fun other hother => h other (List.mem_cons_of_mem _ hother))
        (watch.next part event)
      exact htrans _ _ _ hhead htail

/-- Every complete trace that is told the truth satisfies `post`, together with the part it
leaves and the value it returns. -/
def Shows (watch : Watch S V) (part : V) (program : Program S α)
    (post : List (Event S) → V → α → Prop) : Prop :=
  ∀ trace value, Returns program trace value → watch.Told part trace →
    post trace (watch.after part trace) value

theorem shows_done {part : V} {value : α} {post : List (Event S) → V → α → Prop}
    (h : post [] part value) : watch.Shows part (.done value) post := by
  intro trace result hreturns _
  obtain ⟨rfl, rfl⟩ := returns_done.mp hreturns
  exact h

theorem shows_call {part : V} {op : S.Op} {next : S.Res op → Program S α}
    {post : List (Event S) → V → α → Prop}
    (h : ∀ answer, watch.tells part ⟨op, answer⟩ →
      watch.Shows (watch.next part ⟨op, answer⟩) (next answer) fun trace =>
        post (⟨op, answer⟩ :: trace)) :
    watch.Shows part (.call op next) post := by
  intro trace result hreturns htold
  obtain ⟨answer, tail, rfl, htail⟩ := returns_call.mp hreturns
  exact h answer htold.1 tail result htail htold.2

theorem shows_perform {part : V} {op : S.Op} {next : S.Res op → Program S β}
    {post : List (Event S) → V → β → Prop}
    (h : ∀ answer, watch.tells part ⟨op, answer⟩ →
      watch.Shows (watch.next part ⟨op, answer⟩) (next answer) fun trace =>
        post (⟨op, answer⟩ :: trace)) :
    watch.Shows part (perform op >>= next) post :=
  shows_call h

theorem shows_bind {part : V} {program : Program S α} {next : α → Program S β}
    {mid : List (Event S) → V → α → Prop} {post : List (Event S) → V → β → Prop}
    (hfirst : watch.Shows part program mid)
    (hsecond : ∀ first later value, mid first later value →
      watch.Shows later (next value) fun second => post (first ++ second)) :
    watch.Shows part (program >>= next) post := by
  intro trace result hreturns htold
  obtain ⟨value, first, second, rfl, hreturns₁, hreturns₂⟩ := returns_bind.mp hreturns
  obtain ⟨htold₁, htold₂⟩ := (told_append part first second).mp htold
  have hmid := hfirst first value hreturns₁ htold₁
  rw [after_append]
  exact hsecond first _ value hmid second result hreturns₂ htold₂

theorem Shows.mono {part : V} {program : Program S α} {post post' : List (Event S) → V → α → Prop}
    (h : watch.Shows part program post)
    (himp : ∀ trace later value, post trace later value → post' trace later value) :
    watch.Shows part program post' :=
  fun trace value hreturns htold => himp _ _ _ (h trace value hreturns htold)

theorem Shows.and {part : V} {program : Program S α} {post post' : List (Event S) → V → α → Prop}
    (h : watch.Shows part program post) (h' : watch.Shows part program post') :
    watch.Shows part program fun trace later value =>
      post trace later value ∧ post' trace later value :=
  fun trace value hreturns htold =>
    ⟨h trace value hreturns htold, h' trace value hreturns htold⟩

/-- What holds of every trace is shown. -/
theorem shows_of_ensures {part : V} {program : Program S α} {post : List (Event S) → α → Prop}
    (h : Ensures program post) : watch.Shows part program fun trace _ value => post trace value :=
  fun trace value hreturns _ => h trace value hreturns

end Watch

/-! ## Servers -/

variable {Request Input Disturbance State : Type}

/-- The watch follows the part `of` of the state of a server. -/
structure Follows (watch : Watch S V) (server : Server S Request Input Disturbance State α)
    (of : State → V) : Prop where
  call : ∀ input state op, of (server.interp.answer input state op).2 =
    watch.next (of state) ⟨op, (server.interp.answer input state op).1⟩
  told : ∀ input state op, watch.tells (of state) ⟨op, (server.interp.answer input state op).1⟩
  drop : ∀ history state, of (server.onDrop history state) = of state
  disturb : ∀ disturbance state, of (server.disturb disturbance state) = of state

namespace Follows

variable {watch : Watch S V} {server : Server S Request Input Disturbance State α}
  {of : State → V}

/-- The log tells the truth about the part, and leaves it as the watch says. -/
theorem log (h : Follows watch server of) (state : State)
    (actions : List (Action Request Input Disturbance)) :
    watch.Told (of state) ((Pool.after server state actions).log.map Prod.snd) ∧
      of (Pool.after server state actions).state =
        watch.after (of state) ((Pool.after server state actions).log.map Prod.snd) := by
  refine Pool.after_induction server state (fun pool =>
    watch.Told (of state) (pool.log.map Prod.snd) ∧
      of pool.state = watch.after (of state) (pool.log.map Prod.snd)) ⟨trivial, rfl⟩
    (fun pool action hpool => ?_) actions
  obtain ⟨htold, hpart⟩ := hpool
  rcases Pool.step_cases server pool action with ⟨_, hstep⟩ |
    ⟨caller, running, op, next, input, -, -, hstep⟩ | ⟨_, _, -, hstep⟩ | ⟨_, hstep⟩ | hstep
  · rw [hstep]
    exact ⟨htold, hpart⟩
  · rw [hstep]
    simp only [List.map_append, List.map_cons, List.map_nil, Watch.told_append,
      Watch.after_append, ← hpart]
    exact ⟨⟨htold, h.told input pool.state op, trivial⟩, h.call input pool.state op⟩
  · rw [hstep]
    exact ⟨htold, (h.drop _ _).trans hpart⟩
  · rw [hstep]
    exact ⟨htold, (h.disturb _ _).trans hpart⟩
  · rw [hstep]
    exact ⟨htold, hpart⟩

/-- A thread that makes all its calls while nobody else makes one is told the truth, and
leaves the part as the watch says. -/
theorem alone (h : Follows watch server of) (state : State)
    (before during : List (Action Request Input Disturbance)) {index : Nat}
    {thread : Thread S Request α}
    (hfresh : ∀ entry ∈ (Pool.after server state before).log, entry.1 ≠ index)
    (halone : ∀ entry ∈ (Pool.after server state (before ++ during)).log.drop
      (Pool.after server state before).log.length, entry.1 = index)
    (hthread : (Pool.after server state (before ++ during)).threads[index]? = some thread) :
    watch.Told (of (Pool.after server state before).state) thread.history ∧
      of (Pool.after server state (before ++ during)).state =
        watch.after (of (Pool.after server state before).state) thread.history := by
  obtain ⟨own, hown⟩ := Pool.log_append server state before during
  rw [hown, List.drop_left] at halone
  have hhistory : thread.history = own.map Prod.snd := by
    rw [(Pool.coherent_after server state (before ++ during)).history index thread hthread, hown]
    have hnone : Pool.callsOf (Pool.after server state before).log index = [] :=
      List.filterMap_eq_nil_iff.mpr fun entry hentry => if_neg (hfresh entry hentry)
    have hall : Pool.callsOf own index = own.map Prod.snd := by
      rw [← List.filterMap_eq_map]
      exact List.filterMap_congr fun entry hentry => if_pos (halone entry hentry)
    rw [Pool.callsOf_append, hnone, hall, List.nil_append]
  obtain ⟨-, hpart⟩ := h.log state before
  obtain ⟨htold, hpart'⟩ := h.log state (before ++ during)
  rw [hown, List.map_append, ← hhistory] at htold hpart'
  rw [Watch.told_append, ← hpart] at htold
  rw [Watch.after_append, ← hpart] at hpart'
  exact ⟨htold.2, hpart'⟩

end Follows
end Library
end ApiGateway
