import Mathlib.Data.List.Basic
import Mathlib.Data.List.Induction

/-!
# Runs of calls on one stateful object

An object with interior state is a function that takes the state before a call
and the call, and yields the value returned to the caller and the state after.
This file folds such a function over a finite list of calls.  Histories grow at
the end, so the induction principle that carries an invariant along a run is
`run_induction`: it hands the step case the history before the call.

Calls may carry the instant at which they are made.  `Chronological` says that
the instants of a history never decrease, which is all a monotonic clock
promises.
-/

namespace ApiGateway
namespace Library

/-- A point of a monotonic clock, in nanoseconds from the clock's own origin. -/
abbrev Instant := Nat

/-- A span of time in nanoseconds. -/
abbrev Duration := Nat

/-- Whole seconds as a span of nanoseconds. -/
def Duration.fromSecs (secs : Nat) : Duration := secs * 1000000000

/-- Whole milliseconds as a span of nanoseconds. -/
def Duration.fromMillis (millis : Nat) : Duration := millis * 1000000

section CallRun

variable {State Call Reply : Type}

/-- The state after a list of calls, made in list order. -/
def run (step : State → Call → Reply × State) (initial : State) (calls : List Call) : State :=
  calls.foldl (fun state call => (step state call).2) initial

@[simp] theorem run_nil (step : State → Call → Reply × State) (initial : State) :
    run step initial [] = initial := rfl

@[simp] theorem run_append (step : State → Call → Reply × State) (initial : State)
    (before after : List Call) :
    run step initial (before ++ after) = run step (run step initial before) after := by
  simp [run]

@[simp] theorem run_cons (step : State → Call → Reply × State) (initial : State)
    (call : Call) (calls : List Call) :
    run step initial (call :: calls) = run step (step initial call).2 calls := rfl

/-- The values returned to the callers, in list order. -/
def replies (step : State → Call → Reply × State) : State → List Call → List Reply
  | _, [] => []
  | state, call :: calls => (step state call).1 :: replies step (step state call).2 calls

@[simp] theorem length_replies (step : State → Call → Reply × State) (initial : State)
    (calls : List Call) : (replies step initial calls).length = calls.length := by
  induction calls generalizing initial with
  | nil => rfl
  | cons call calls ih => simp [replies, ih]

theorem replies_snoc (step : State → Call → Reply × State) (initial : State)
    (calls : List Call) (call : Call) :
    replies step initial (calls ++ [call]) =
      replies step initial calls ++ [(step (run step initial calls) call).1] := by
  induction calls generalizing initial with
  | nil => rfl
  | cons first calls ih => simp [replies, ih]

/-- Two objects whose answers agree after every history answer a run alike. -/
theorem map_replies_congr {State' Reply' β : Type} {step : State → Call → Reply × State}
    {step' : State' → Call → Reply' × State'} {initial : State} {initial' : State'}
    {view : Reply → β} {view' : Reply' → β}
    (h : ∀ history call, view (step (run step initial history) call).1 =
      view' (step' (run step' initial' history) call).1) (calls : List Call) :
    (replies step initial calls).map view = (replies step' initial' calls).map view' := by
  induction calls using List.reverseRecOn with
  | nil => rfl
  | append_singleton history call ih =>
      rw [replies_snoc, replies_snoc, List.map_append, List.map_append, ih]
      exact congrArg _ (congrArg (fun last => [last]) (h history call))

/-- Every call with the value it returned. -/
def answered (step : State → Call → Reply × State) (initial : State) (calls : List Call) :
    List (Call × Reply) :=
  calls.zip (replies step initial calls)

theorem answered_snoc (step : State → Call → Reply × State) (initial : State)
    (calls : List Call) (call : Call) :
    answered step initial (calls ++ [call]) =
      answered step initial calls ++ [(call, (step (run step initial calls) call).1)] := by
  rw [answered, replies_snoc, List.zip_append (by simp)]
  rfl

/-- A property of histories and states that holds initially and is kept by every
call holds after every run, provided the admitted histories are closed under
dropping the last call. -/
theorem run_induction {step : State → Call → Reply × State} {initial : State}
    (admitted : List Call → Prop) (invariant : List Call → State → Prop)
    (hclosed : ∀ history call, admitted (history ++ [call]) → admitted history)
    (hinit : invariant [] initial)
    (hstep : ∀ history state call, admitted (history ++ [call]) →
      invariant history state → invariant (history ++ [call]) (step state call).2)
    (calls : List Call) (hcalls : admitted calls) :
    invariant calls (run step initial calls) := by
  induction calls using List.reverseRecOn with
  | nil => exact hinit
  | append_singleton history call ih =>
      rw [run_append]
      exact hstep history _ call hcalls (ih (hclosed history call hcalls))

end CallRun

section Chronology

variable {Call : Type}

/-- The instants carried by a history, in order. -/
def instants (time : Call → Option Instant) (calls : List Call) : List Instant :=
  calls.filterMap time

/-- The instants of a history never decrease. -/
def Chronological (time : Call → Option Instant) (calls : List Call) : Prop :=
  (instants time calls).Pairwise (· ≤ ·)

instance (time : Call → Option Instant) (calls : List Call) :
    Decidable (Chronological time calls) :=
  inferInstanceAs (Decidable ((instants time calls).Pairwise (· ≤ ·)))

/-- Every instant of an earlier part of the history is at or before every
instant of a later part. -/
theorem Chronological.le_of_append {time : Call → Option Instant} {before after : List Call}
    (h : Chronological time (before ++ after)) {earlier later : Instant}
    (hearlier : earlier ∈ instants time before) (hlater : later ∈ instants time after) :
    earlier ≤ later := by
  unfold Chronological instants at h
  rw [List.filterMap_append, List.pairwise_append] at h
  exact h.2.2 earlier hearlier later hlater

theorem mem_instants {time : Call → Option Instant} {calls : List Call} {now : Instant} :
    now ∈ instants time calls ↔ ∃ call ∈ calls, time call = some now := by
  simp [instants]

end Chronology

end Library
end ApiGateway
