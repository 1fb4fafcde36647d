import Mathlib.Data.UInt
import ApiGateway.Library.CallRun

/-!
# The per-upstream circuit breaker

`CircuitBreaker` holds the two configured numbers and `Inner` is the record that
the source keeps behind its mutex.  The three operations take the lock for their
whole body, so each of them is one atomic step on `Inner`.

`breaker_trace` is the history-only description of the machine: the state is a
function of the failures since the last success, of the time of the last failure
and of the clock.  The counter is kept through `opened` and `halfOpen`, and a
failure reported while the breaker is open moves the deadline; both facts are in
`TraceInvariant`, which links the record to the history.

`u32` addition wraps, as the release profile of the workspace compiles it.
Instants are not bounded here: `now + open_for` is always defined.
-/

namespace ApiGateway
namespace Gateway

open Library

inductive BreakerState where
  | closed
  | opened
  | halfOpen
  deriving DecidableEq, Repr

/-- Numeric encoding for the Prometheus gauge. -/
def BreakerState.code : BreakerState → Int
  | .closed => 0
  | .halfOpen => 1
  | .opened => 2

/-- The mutable record of a breaker, kept behind a mutex by the source. -/
structure Inner where
  state : BreakerState
  consecutiveFailures : UInt32
  openUntil : Option Instant
  deriving DecidableEq, Repr

structure CircuitBreaker where
  threshold : UInt32
  openFor : Duration
  deriving DecidableEq, Repr

namespace CircuitBreaker

def new (failureThreshold : UInt32) (openSecs : UInt64) : CircuitBreaker where
  threshold := max failureThreshold 1
  openFor := Duration.fromSecs (max openSecs.toNat 1)

/-- The record a breaker is created with. -/
def initialInner : Inner where
  state := .closed
  consecutiveFailures := 0
  openUntil := none

/-- Whether a request may proceed.  An open breaker whose cooldown has elapsed
moves to `halfOpen` and lets the call through. -/
def allowAt (inner : Inner) (now : Instant) : Bool × Inner :=
  match inner.state with
  | .closed | .halfOpen => (true, inner)
  | .opened =>
      if (inner.openUntil.map fun deadline => decide (deadline ≤ now)).getD true then
        (true, { inner with state := .halfOpen })
      else
        (false, inner)

def recordSuccess (_inner : Inner) : Inner where
  state := .closed
  consecutiveFailures := 0
  openUntil := none

def recordFailureAt (breaker : CircuitBreaker) (inner : Inner) (now : Instant) : Inner :=
  let failures := inner.consecutiveFailures + 1
  -- A failed half-open trial, or crossing the threshold, opens the breaker.
  if inner.state = .halfOpen ∨ breaker.threshold ≤ failures then
    { state := .opened, consecutiveFailures := failures, openUntil := some (now + breaker.openFor) }
  else
    { inner with consecutiveFailures := failures }

/-- A call on a breaker.  The untimed public methods read the clock and forward
to the timed ones. -/
inductive Call where
  | allowAt (now : Instant)
  | recordSuccess
  | recordFailureAt (now : Instant)
  deriving DecidableEq, Repr

namespace Call

def time : Call → Option Instant
  | .allowAt now => some now
  | .recordSuccess => none
  | .recordFailureAt now => some now

/-- The call reports the outcome of a request. -/
def isRecord : Call → Bool
  | .allowAt _ => false
  | .recordSuccess | .recordFailureAt _ => true

end Call

/-- One call: the answer of `allow_at`, or nothing, and the record after it. -/
def step (breaker : CircuitBreaker) (inner : Inner) : Call → Option Bool × Inner
  | .allowAt now => ((allowAt inner now).1, (allowAt inner now).2)
  | .recordSuccess => (none, recordSuccess inner)
  | .recordFailureAt now => (none, breaker.recordFailureAt inner now)

/-- The record after a run of calls on a new breaker. -/
def after (breaker : CircuitBreaker) (calls : List Call) : Inner :=
  run breaker.step initialInner calls

@[simp] theorem after_append_singleton (breaker : CircuitBreaker) (calls : List Call)
    (call : Call) :
    breaker.after (calls ++ [call]) = (breaker.step (breaker.after calls) call).2 := by
  simp [after]

/-! ## What one call can do -/

theorem allowAt_closed {inner : Inner} (h : inner.state = .closed) (now : Instant) :
    allowAt inner now = (true, inner) := by
  simp [allowAt, h]

theorem allowAt_halfOpen {inner : Inner} (h : inner.state = .halfOpen) (now : Instant) :
    allowAt inner now = (true, inner) := by
  simp [allowAt, h]

/-- Before its deadline an open breaker refuses and does not change. -/
theorem allowAt_opened_early {inner : Inner} {deadline now : Instant}
    (h : inner.state = .opened) (hdeadline : inner.openUntil = some deadline)
    (hnow : now < deadline) : allowAt inner now = (false, inner) := by
  simp [allowAt, h, hdeadline, Nat.not_le.mpr hnow]

/-- From its deadline on an open breaker admits the call as the half-open trial. -/
theorem allowAt_opened_late {inner : Inner} {deadline now : Instant}
    (h : inner.state = .opened) (hdeadline : inner.openUntil = some deadline)
    (hnow : deadline ≤ now) : allowAt inner now = (true, { inner with state := .halfOpen }) := by
  simp [allowAt, h, hdeadline, hnow]

/-- The counter and the deadline are never written by `allow_at`. -/
@[simp] theorem allowAt_consecutiveFailures (inner : Inner) (now : Instant) :
    (allowAt inner now).2.consecutiveFailures = inner.consecutiveFailures := by
  unfold allowAt
  split <;> try rfl
  split <;> rfl

@[simp] theorem allowAt_openUntil (inner : Inner) (now : Instant) :
    (allowAt inner now).2.openUntil = inner.openUntil := by
  unfold allowAt
  split <;> try rfl
  split <;> rfl

/-- `allow_at` leaves the state alone except that it may turn `opened` into
`halfOpen`. -/
theorem allowAt_state (inner : Inner) (now : Instant) :
    (allowAt inner now).2.state = inner.state ∨
      (inner.state = .opened ∧ (allowAt inner now).2.state = .halfOpen) := by
  unfold allowAt
  split
  · exact Or.inl rfl
  · exact Or.inl rfl
  · rename_i hstate
    split
    · exact Or.inr ⟨hstate, rfl⟩
    · exact Or.inl rfl

@[simp] theorem threshold_new (failureThreshold : UInt32) (openSecs : UInt64) :
    (new failureThreshold openSecs).threshold.toNat = max failureThreshold.toNat 1 := by
  change (if failureThreshold ≤ 1 then 1 else failureThreshold : UInt32).toNat =
    max failureThreshold.toNat 1
  split
  · rename_i h
    have hle : failureThreshold.toNat ≤ 1 := UInt32.le_iff_toNat_le.mp h
    exact (Nat.max_eq_right hle).symm
  · rename_i h
    have hlt : ¬ failureThreshold.toNat ≤ 1 := fun hle => h (UInt32.le_iff_toNat_le.mpr hle)
    exact (Nat.max_eq_left (by omega)).symm

theorem threshold_new_pos (failureThreshold : UInt32) (openSecs : UInt64) :
    0 < (new failureThreshold openSecs).threshold.toNat := by
  rw [threshold_new]
  omega

/-! ## The history behind a record -/

/-- The number of failures reported since the last success, or since creation. -/
def failuresSinceSuccess (calls : List Call) : Nat :=
  (calls.reverse.takeWhile (· != .recordSuccess)).countP fun call =>
    match call with
    | .recordFailureAt _ => true
    | _ => false

/-- The time of the last reported failure. -/
def lastFailure (calls : List Call) : Option Instant :=
  calls.reverse.findSome? fun call =>
    match call with
    | .recordFailureAt now => some now
    | _ => none

@[simp] theorem failuresSinceSuccess_nil : failuresSinceSuccess [] = 0 := rfl

@[simp] theorem failuresSinceSuccess_allowAt (calls : List Call) (now : Instant) :
    failuresSinceSuccess (calls ++ [.allowAt now]) = failuresSinceSuccess calls := by
  simp [failuresSinceSuccess]

@[simp] theorem failuresSinceSuccess_recordSuccess (calls : List Call) :
    failuresSinceSuccess (calls ++ [.recordSuccess]) = 0 := by
  simp [failuresSinceSuccess]

@[simp] theorem failuresSinceSuccess_recordFailureAt (calls : List Call) (now : Instant) :
    failuresSinceSuccess (calls ++ [.recordFailureAt now]) = failuresSinceSuccess calls + 1 := by
  simp [failuresSinceSuccess]

@[simp] theorem lastFailure_allowAt (calls : List Call) (now : Instant) :
    lastFailure (calls ++ [.allowAt now]) = lastFailure calls := by
  simp [lastFailure]

@[simp] theorem lastFailure_recordFailureAt (calls : List Call) (now : Instant) :
    lastFailure (calls ++ [.recordFailureAt now]) = some now := by
  simp [lastFailure]

/-- The link between a history and the record it leaves, as long as the counter
has not wrapped since the last success.  Below the threshold the breaker is
closed.  From the threshold on it is either open until `openFor` after the last
failure, or half-open because some earlier `allow_at` came that late. -/
structure TraceInvariant (breaker : CircuitBreaker) (calls : List Call) (inner : Inner) :
    Prop where
  counter : inner.consecutiveFailures.toNat = failuresSinceSuccess calls
  below : failuresSinceSuccess calls < breaker.threshold.toNat → inner.state = .closed
  above : breaker.threshold.toNat ≤ failuresSinceSuccess calls →
    ∃ failedAt, lastFailure calls = some failedAt ∧
      ((inner.state = .opened ∧ inner.openUntil = some (failedAt + breaker.openFor)) ∨
        (inner.state = .halfOpen ∧
          ∃ probed ∈ instants Call.time calls, failedAt + breaker.openFor ≤ probed))

theorem traceInvariant_allowAt {breaker : CircuitBreaker} {calls : List Call} {inner : Inner}
    (h : TraceInvariant breaker calls inner) (now : Instant) :
    TraceInvariant breaker (calls ++ [.allowAt now]) (allowAt inner now).2 := by
  have hinstants : instants Call.time (calls ++ [.allowAt now]) =
      instants Call.time calls ++ [now] := by
    simp [instants, Call.time]
  refine ⟨by simpa using h.counter, fun hlt => ?_, fun hge => ?_⟩
  · rw [allowAt_closed (h.below (by simpa using hlt))]
    exact h.below (by simpa using hlt)
  · obtain ⟨failedAt, hlast, hcases⟩ := h.above (by simpa using hge)
    refine ⟨failedAt, by simpa using hlast, ?_⟩
    rw [hinstants]
    rcases hcases with ⟨hstate, huntil⟩ | ⟨hstate, probed, hmem, hle⟩
    · by_cases hnow : failedAt + breaker.openFor ≤ now
      · rw [allowAt_opened_late hstate huntil hnow]
        exact Or.inr ⟨rfl, now, by simp, hnow⟩
      · rw [allowAt_opened_early hstate huntil (Nat.not_le.mp hnow)]
        exact Or.inl ⟨hstate, huntil⟩
    · rw [allowAt_halfOpen hstate]
      exact Or.inr ⟨hstate, probed, List.mem_append_left _ hmem, hle⟩

theorem traceInvariant_recordSuccess {breaker : CircuitBreaker} (calls : List Call)
    (inner : Inner) (hpos : 0 < breaker.threshold.toNat) :
    TraceInvariant breaker (calls ++ [.recordSuccess]) (recordSuccess inner) := by
  refine ⟨by simp [recordSuccess], fun _ => rfl, fun hge => ?_⟩
  rw [failuresSinceSuccess_recordSuccess] at hge
  omega

theorem traceInvariant_recordFailureAt {breaker : CircuitBreaker} {calls : List Call}
    {inner : Inner} (h : TraceInvariant breaker calls inner) (now : Instant)
    (hfew : failuresSinceSuccess calls + 1 < 2 ^ 32) :
    TraceInvariant breaker (calls ++ [.recordFailureAt now])
      (breaker.recordFailureAt inner now) := by
  have hcounter : (inner.consecutiveFailures + 1).toNat = failuresSinceSuccess calls + 1 := by
    rw [UInt32.toNat_add, h.counter]
    exact Nat.mod_eq_of_lt hfew
  by_cases hge : breaker.threshold.toNat ≤ failuresSinceSuccess calls + 1
  · -- The threshold is reached: the breaker opens, or is open and its deadline moves.
    have hopens : inner.state = .halfOpen ∨
        breaker.threshold ≤ inner.consecutiveFailures + 1 := by
      right
      rw [UInt32.le_iff_toNat_le, hcounter]
      exact hge
    simp only [recordFailureAt, if_pos hopens]
    refine ⟨by simpa using hcounter, fun hlt => ?_, fun _ => ?_⟩
    · rw [failuresSinceSuccess_recordFailureAt] at hlt
      omega
    · exact ⟨now, by simp, Or.inl ⟨rfl, rfl⟩⟩
  · -- Below the threshold the breaker is closed, so the half-open arm is not taken.
    have hclosed : inner.state = .closed := h.below (by omega)
    have hstays : ¬ (inner.state = .halfOpen ∨
        breaker.threshold ≤ inner.consecutiveFailures + 1) := by
      rw [hclosed, UInt32.le_iff_toNat_le, hcounter]
      simp [hge]
    simp only [recordFailureAt, if_neg hstays]
    refine ⟨by simpa using hcounter, fun _ => hclosed, fun hge' => ?_⟩
    rw [failuresSinceSuccess_recordFailureAt] at hge'
    omega

/-- The link holds after every run whose last stretch of failures fits the
counter.  Failures before the last success may have wrapped it: the success
resets the record. -/
theorem traceInvariant_after (breaker : CircuitBreaker) (hpos : 0 < breaker.threshold.toNat)
    (calls : List Call) (hfew : failuresSinceSuccess calls < 2 ^ 32) :
    TraceInvariant breaker calls (breaker.after calls) := by
  refine run_induction (fun _ => True)
    (fun history inner => failuresSinceSuccess history < 2 ^ 32 →
      TraceInvariant breaker history inner)
    (fun _ _ _ => trivial) ?_ ?_ calls trivial hfew
  · intro _
    refine ⟨rfl, fun _ => rfl, fun hge => ?_⟩
    rw [failuresSinceSuccess_nil] at hge
    omega
  · intro history inner call _ ih hfew
    cases call with
    | allowAt now => exact traceInvariant_allowAt (ih (by simpa using hfew)) now
    | recordSuccess => exact traceInvariant_recordSuccess history inner hpos
    | recordFailureAt now =>
        rw [failuresSinceSuccess_recordFailureAt] at hfew
        exact traceInvariant_recordFailureAt (ih (by omega)) now hfew

/-- **Trace semantics of the breaker.**  After any run on a new breaker with fewer
than `2 ^ 32` failures since the last success, the breaker is closed exactly when
those failures are below the threshold, and the next `allow_at`, made no earlier
than any earlier call, refuses exactly when the threshold is reached and the
cooldown of the last failure still runs. -/
theorem breaker_trace (failureThreshold : UInt32) (openSecs : UInt64) (calls : List Call)
    (hfew : failuresSinceSuccess calls < 2 ^ 32) :
    let breaker := new failureThreshold openSecs
    let threshold := max failureThreshold.toNat 1
    let cooldown := Duration.fromSecs (max openSecs.toNat 1)
    ((breaker.after calls).state = .closed ↔ failuresSinceSuccess calls < threshold) ∧
      ∀ now, (∀ earlier ∈ instants Call.time calls, earlier ≤ now) →
        ((allowAt (breaker.after calls) now).1 = false ↔
          threshold ≤ failuresSinceSuccess calls ∧
            ∃ failedAt, lastFailure calls = some failedAt ∧ now < failedAt + cooldown) := by
  intro breaker threshold cooldown
  have hthreshold : breaker.threshold.toNat = threshold := threshold_new _ _
  have h := traceInvariant_after breaker (threshold_new_pos _ _) calls hfew
  rw [← hthreshold]
  refine ⟨⟨fun hclosed => ?_, h.below⟩, fun now hlater => ?_⟩
  · by_contra hge
    obtain ⟨_, -, ⟨hstate, -⟩ | ⟨hstate, -⟩⟩ := h.above (Nat.not_lt.mp hge)
    · rw [hclosed] at hstate
      cases hstate
    · rw [hclosed] at hstate
      cases hstate
  · constructor
    · intro hrefused
      have hge : breaker.threshold.toNat ≤ failuresSinceSuccess calls := by
        by_contra hlt
        rw [allowAt_closed (h.below (Nat.not_le.mp hlt))] at hrefused
        cases hrefused
      obtain ⟨failedAt, hlast, ⟨hstate, huntil⟩ | ⟨hstate, -⟩⟩ := h.above hge
      · refine ⟨hge, failedAt, hlast, ?_⟩
        by_contra hlate
        rw [allowAt_opened_late hstate huntil (Nat.not_lt.mp hlate)] at hrefused
        cases hrefused
      · rw [allowAt_halfOpen hstate] at hrefused
        cases hrefused
    · rintro ⟨hge, failedAt, hlast, hearly⟩
      obtain ⟨failedAt', hlast', hcases⟩ := h.above hge
      obtain rfl : failedAt = failedAt' := Option.some.inj (hlast.symm.trans hlast')
      rcases hcases with ⟨hstate, huntil⟩ | ⟨-, probed, hmem, hle⟩
      · rw [allowAt_opened_early hstate huntil hearly]
      · -- A half-open breaker was probed at or after the deadline, and `now` is later still.
        exact absurd (hle.trans (hlater probed hmem)) (Nat.not_le.mpr hearly)

/-- Three failures open a breaker of threshold three; one second later it still
refuses, after the ten seconds of cooldown it does not. -/
theorem breaker_trace_three_failures :
    let calls := [Call.allowAt 0, .recordFailureAt 1, .recordFailureAt 2, .recordFailureAt 3]
    failuresSinceSuccess calls = 3 ∧
      (((new 3 10).after calls).state = .closed ↔ failuresSinceSuccess calls < 3) ∧
      ∀ now, (∀ earlier ∈ instants Call.time calls, earlier ≤ now) →
        ((allowAt ((new 3 10).after calls) now).1 = false ↔
          3 ≤ failuresSinceSuccess calls ∧
            ∃ failedAt, lastFailure calls = some failedAt ∧
              now < failedAt + Duration.fromSecs 10) :=
  ⟨by decide, breaker_trace 3 10
    [Call.allowAt 0, .recordFailureAt 1, .recordFailureAt 2, .recordFailureAt 3] (by decide)⟩

end CircuitBreaker

end Gateway
end ApiGateway
