import Mathlib.Data.List.Count
import ApiGateway.Gateway.Breaker

/-!
# Cooldown and half-open trials of the circuit breaker

The module documentation of the breaker draws four edges: `closed → opened`,
`opened → halfOpen` once the cooldown has elapsed, `halfOpen → closed` on success
and `halfOpen → opened` on failure; the documentation of `allow` adds that the
second edge lets a single trial through.  Outcomes of requests that were admitted
earlier may be reported in any later state, so both promises are stated here over
arbitrary runs of calls.

* `ServesCooldown` is the first promise.  `record_success` does not look at the
  state, so a late success closes an open breaker at once;
  `servesCooldown_iff` shows that this is the only way to break the promise.
* `SingleTrial` is the second.  `allow_at` admits every caller of a half-open
  breaker; `singleTrial_iff` shows that the promise holds exactly for the runs in
  which no second caller asks.
-/

namespace ApiGateway
namespace Gateway
namespace CircuitBreaker

open Library

/-! ## Cooldown -/

/-- The edges between distinct states that the breaker documents. -/
def documentedEdges : List (BreakerState × BreakerState) :=
  [(.closed, .opened), (.opened, .halfOpen), (.halfOpen, .closed), (.halfOpen, .opened)]

/-- An open breaker serves its cooldown, and changes state only along the
documented edges. -/
structure ServesCooldown (breaker : CircuitBreaker) (calls : List Call) : Prop where
  /-- Once opened at `entered`, every later `allow_at` before the end of the
  cooldown is refused. -/
  refuses : ∀ before entered between now rest,
    calls = before ++ .recordFailureAt entered :: (between ++ .allowAt now :: rest) →
    (breaker.after before).state ≠ .opened →
    (breaker.after (before ++ [.recordFailureAt entered])).state = .opened →
    now < entered + breaker.openFor →
    (allowAt (breaker.after (before ++ .recordFailureAt entered :: between)) now).1 = false
  /-- The open state is left only to `halfOpen`, by an `allow_at` that is not
  before the deadline. -/
  leaves : ∀ before call rest, calls = before ++ call :: rest →
    (breaker.after before).state = .opened →
    (breaker.after (before ++ [call])).state ≠ .opened →
    (breaker.after (before ++ [call])).state = .halfOpen ∧
      ∃ now deadline, call = .allowAt now ∧
        (breaker.after before).openUntil = some deadline ∧ deadline ≤ now
  edges : ∀ before call rest, calls = before ++ call :: rest →
    (breaker.after before).state ≠ (breaker.after (before ++ [call])).state →
    ((breaker.after before).state, (breaker.after (before ++ [call])).state) ∈ documentedEdges

/-- No success is reported while the breaker is open. -/
def NoSuccessWhileOpen (breaker : CircuitBreaker) (calls : List Call) : Prop :=
  ∀ before rest, calls = before ++ .recordSuccess :: rest →
    (breaker.after before).state ≠ .opened

/-- The record is open with a deadline no earlier than `bound`. -/
def OpenAtLeast (bound : Instant) (inner : Inner) : Prop :=
  inner.state = .opened ∧ ∃ deadline, inner.openUntil = some deadline ∧ bound ≤ deadline

/-- A reported failure either leaves the state alone or opens the breaker, with a
deadline one cooldown after the report. -/
theorem recordFailureAt_cases (breaker : CircuitBreaker) (inner : Inner) (now : Instant) :
    ((breaker.recordFailureAt inner now).state = .opened ∧
        (breaker.recordFailureAt inner now).openUntil = some (now + breaker.openFor)) ∨
      (inner.state ≠ .halfOpen ∧
        (breaker.recordFailureAt inner now).state = inner.state ∧
        (breaker.recordFailureAt inner now).openUntil = inner.openUntil) := by
  by_cases hopens : inner.state = .halfOpen ∨ breaker.threshold ≤ inner.consecutiveFailures + 1
  · left
    simp only [recordFailureAt, if_pos hopens]
    exact ⟨trivial, trivial⟩
  · right
    simp only [recordFailureAt, if_neg hopens]
    exact ⟨fun h => hopens (Or.inl h), trivial, trivial⟩

/-- An open record always has a deadline. -/
theorem openUntil_of_opened (breaker : CircuitBreaker) (calls : List Call)
    (hopened : (breaker.after calls).state = .opened) :
    ∃ deadline, (breaker.after calls).openUntil = some deadline := by
  unfold after at hopened ⊢
  revert hopened
  refine run_induction (fun _ => True)
    (fun _ (inner : Inner) =>
      inner.state = .opened → ∃ deadline, inner.openUntil = some deadline)
    (fun _ _ _ => trivial) (fun h => by cases h) ?_ calls trivial
  intro _ inner call _ ih hopened
  cases call with
  | allowAt now =>
      change (allowAt inner now).2.state = .opened at hopened
      change ∃ deadline, (allowAt inner now).2.openUntil = some deadline
      rw [allowAt_openUntil]
      rcases allowAt_state inner now with hsame | ⟨-, hhalf⟩
      · exact ih (hsame ▸ hopened)
      · rw [hhalf] at hopened
        cases hopened
  | recordSuccess => cases hopened
  | recordFailureAt now =>
      change ∃ deadline, (breaker.recordFailureAt inner now).openUntil = some deadline
      rcases recordFailureAt_cases breaker inner now with ⟨-, huntil⟩ | ⟨-, hstate, huntil⟩
      · exact ⟨_, huntil⟩
      · rw [huntil]
        exact ih (hstate ▸ hopened)

/-- A call made inside the cooldown keeps the breaker open, unless it reports a
success. -/
theorem openAtLeast_step (breaker : CircuitBreaker) {entered : Instant} {inner : Inner}
    (h : OpenAtLeast (entered + breaker.openFor) inner) {call : Call}
    (hsuccess : call ≠ .recordSuccess)
    (hinside : ∀ now, call.time = some now → entered ≤ now ∧ now < entered + breaker.openFor) :
    OpenAtLeast (entered + breaker.openFor) (breaker.step inner call).2 := by
  obtain ⟨hopened, deadline, huntil, hbound⟩ := h
  cases call with
  | allowAt now =>
      have hearly : now < deadline := (hinside now rfl).2.trans_le hbound
      change OpenAtLeast _ (allowAt inner now).2
      rw [allowAt_opened_early hopened huntil hearly]
      exact ⟨hopened, deadline, huntil, hbound⟩
  | recordSuccess => exact absurd rfl hsuccess
  | recordFailureAt now =>
      change OpenAtLeast _ (breaker.recordFailureAt inner now)
      rcases recordFailureAt_cases breaker inner now with ⟨hstate, huntil'⟩ | ⟨-, hstate, huntil'⟩
      · exact ⟨hstate, _, huntil', Nat.add_le_add_right (hinside now rfl).1 _⟩
      · exact ⟨hstate.trans hopened, deadline, huntil'.trans huntil, hbound⟩

/-- Through any stretch of calls made inside the cooldown and free of successes
in the open state, the breaker stays open. -/
theorem openAtLeast_between (breaker : CircuitBreaker) (calls before between rest : List Call)
    (entered now : Instant)
    (hcalls : calls = before ++ .recordFailureAt entered :: (between ++ .allowAt now :: rest))
    (hchron : Chronological Call.time calls) (hclean : NoSuccessWhileOpen breaker calls)
    (hinside : now < entered + breaker.openFor)
    (hstart : OpenAtLeast (entered + breaker.openFor)
      (breaker.after (before ++ [.recordFailureAt entered]))) :
    OpenAtLeast (entered + breaker.openFor)
      (breaker.after (before ++ .recordFailureAt entered :: between)) := by
  -- Induction over the stretch from its end; `later` is what the run does after it.
  suffices hall : ∀ stretch later, between = stretch ++ later →
      OpenAtLeast (entered + breaker.openFor)
        (breaker.after (before ++ .recordFailureAt entered :: stretch)) from
    hall between [] (List.append_nil _).symm
  intro stretch
  induction stretch using List.reverseRecOn with
  | nil => exact fun _ _ => hstart
  | append_singleton stretch call ih =>
      intro later hbetween
      have hprev := ih (call :: later) (by simp [hbetween])
      have hsplit : calls = (before ++ .recordFailureAt entered :: stretch) ++
          call :: (later ++ .allowAt now :: rest) := by
        simp [hcalls, hbetween]
      rw [show before ++ Call.recordFailureAt entered :: (stretch ++ [call]) =
        (before ++ .recordFailureAt entered :: stretch) ++ [call] by simp, after_append_singleton]
      refine openAtLeast_step breaker hprev ?_ ?_
      · rintro rfl
        exact hclean _ _ hsplit hprev.1
      · intro time htime
        constructor
        · rw [hsplit] at hchron
          exact hchron.le_of_append (mem_instants.mpr ⟨.recordFailureAt entered, by simp, rfl⟩)
            (mem_instants.mpr ⟨call, by simp, htime⟩)
        · refine lt_of_le_of_lt ?_ hinside
          rw [hsplit, List.append_cons] at hchron
          exact hchron.le_of_append (mem_instants.mpr ⟨call, by simp, htime⟩)
            (mem_instants.mpr ⟨.allowAt now, by simp, rfl⟩)

/-- One call that is not a success in the open state follows a documented edge,
or changes nothing; the open state is left only by a late `allow_at`. -/
theorem step_edge (breaker : CircuitBreaker) (inner : Inner) (call : Call)
    (hdeadline : inner.state = .opened → ∃ deadline, inner.openUntil = some deadline)
    (hclean : call = .recordSuccess → inner.state ≠ .opened) :
    (inner.state ≠ (breaker.step inner call).2.state →
        (inner.state, (breaker.step inner call).2.state) ∈ documentedEdges) ∧
      (inner.state = .opened → (breaker.step inner call).2.state ≠ .opened →
        (breaker.step inner call).2.state = .halfOpen ∧
          ∃ now deadline, call = .allowAt now ∧
            inner.openUntil = some deadline ∧ deadline ≤ now) := by
  cases call with
  | allowAt now =>
      change (inner.state ≠ (allowAt inner now).2.state →
          (inner.state, (allowAt inner now).2.state) ∈ documentedEdges) ∧
        (inner.state = .opened → (allowAt inner now).2.state ≠ .opened →
          (allowAt inner now).2.state = .halfOpen ∧ _)
      rcases allowAt_state inner now with hsame | ⟨hopened, hhalf⟩
      · exact ⟨fun hne => absurd hsame.symm hne,
          fun hopened hne => absurd (hsame.trans hopened) hne⟩
      · obtain ⟨deadline, huntil⟩ := hdeadline hopened
        have hlate : deadline ≤ now := by
          by_contra hearly
          rw [allowAt_opened_early hopened huntil (Nat.not_le.mp hearly), hopened] at hhalf
          cases hhalf
        rw [hopened, hhalf]
        exact ⟨fun _ => by decide, fun _ _ => ⟨rfl, now, deadline, rfl, huntil, hlate⟩⟩
  | recordSuccess =>
      have hnot := hclean rfl
      refine ⟨fun hne => ?_, fun hopened => absurd hopened hnot⟩
      change (inner.state, BreakerState.closed) ∈ documentedEdges
      change inner.state ≠ BreakerState.closed at hne
      cases hstate : inner.state with
      | closed => exact absurd hstate hne
      | opened => exact absurd hstate hnot
      | halfOpen => decide
  | recordFailureAt now =>
      change (inner.state ≠ (breaker.recordFailureAt inner now).state →
          (inner.state, (breaker.recordFailureAt inner now).state) ∈ documentedEdges) ∧
        (inner.state = .opened → (breaker.recordFailureAt inner now).state ≠ .opened → _)
      rcases recordFailureAt_cases breaker inner now with ⟨hstate, -⟩ | ⟨-, hstate, -⟩
      · rw [hstate]
        refine ⟨fun hne => ?_, fun _ hne => absurd rfl hne⟩
        cases hfrom : inner.state with
        | closed => decide
        | opened => exact absurd hfrom hne
        | halfOpen => decide
      · exact ⟨fun hne => absurd hstate.symm hne,
          fun hopened hne => absurd (hstate.trans hopened) hne⟩

/-- **When the breaker serves its cooldown.**  For every run with nondecreasing
times, the documented state machine is followed exactly when no success is
reported to the open breaker. -/
theorem servesCooldown_iff (failureThreshold : UInt32) (openSecs : UInt64) (calls : List Call)
    (hchron : Chronological Call.time calls) :
    ServesCooldown (new failureThreshold openSecs) calls ↔
      NoSuccessWhileOpen (new failureThreshold openSecs) calls := by
  set breaker := new failureThreshold openSecs
  constructor
  · -- A success in the open state takes the edge `opened → closed`.
    intro hserves before rest hcalls hopened
    have hclosed : (breaker.after (before ++ [.recordSuccess])).state = .closed := by
      rw [after_append_singleton]
      rfl
    have hedge := hserves.edges before .recordSuccess rest hcalls
    rw [hopened, hclosed] at hedge
    exact absurd (hedge (by decide)) (by decide)
  · intro hclean
    refine ⟨?_, ?_, ?_⟩
    · intro before entered between now rest hcalls hnot hopened hinside
      have hstart : OpenAtLeast (entered + breaker.openFor)
          (breaker.after (before ++ [.recordFailureAt entered])) := by
        refine ⟨hopened, ?_⟩
        rw [after_append_singleton] at hopened ⊢
        change (breaker.recordFailureAt (breaker.after before) entered).state = .opened at hopened
        rcases recordFailureAt_cases breaker (breaker.after before) entered with
          ⟨-, huntil⟩ | ⟨-, hstate, -⟩
        · exact ⟨_, huntil, Nat.le_refl _⟩
        · exact absurd (hstate ▸ hopened) hnot
      obtain ⟨hstill, deadline, huntil, hbound⟩ := openAtLeast_between breaker calls before
        between rest entered now hcalls hchron hclean hinside hstart
      rw [allowAt_opened_early hstill huntil (hinside.trans_le hbound)]
    · intro before call rest hcalls hopened hleft
      rw [after_append_singleton] at hleft ⊢
      exact (step_edge breaker _ call (openUntil_of_opened breaker before)
        (fun hcall => hclean before rest (hcall ▸ hcalls))).2 hopened hleft
    · intro before call rest hcalls hne
      rw [after_append_singleton] at hne ⊢
      exact (step_edge breaker _ call (openUntil_of_opened breaker before)
        (fun hcall => hclean before rest (hcall ▸ hcalls))).1 hne

/-- A breaker that opens, cools down, lets its trial through and closes on the
trial's success serves its cooldown. -/
theorem servesCooldown_full_cycle :
    ServesCooldown (new 1 1)
      [.recordFailureAt 5, .allowAt 6, .allowAt 1000000005, .recordSuccess] := by
  refine (servesCooldown_iff 1 1 _ (by decide)).mpr ?_
  intro before rest hcalls
  match before with
  | [] => cases hcalls
  | [_] => cases hcalls
  | [_, _] => cases hcalls
  | [_, _, _] =>
      obtain ⟨rfl, rfl, rfl, -⟩ : _ ∧ _ ∧ _ ∧ _ := by simpa using hcalls
      decide
  | _ :: _ :: _ :: _ :: tail =>
      simp at hcalls

/-- Two requests are admitted, the first fails and opens the breaker, and the late
success of the second closes it at once: the next caller is admitted one
nanosecond into a cooldown of ten seconds. -/
theorem late_success_skips_cooldown :
    ¬ ServesCooldown (new 1 10)
      [.allowAt 0, .allowAt 0, .recordFailureAt 1, .recordSuccess, .allowAt 2] := by
  intro hserves
  have hrefused := hserves.refuses [.allowAt 0, .allowAt 0] 1 [.recordSuccess] 2 [] rfl
    (by decide) (by decide) (by decide)
  exact absurd hrefused (by decide)

/-! ## Half-open trials -/

/-- How many calls of a stretch were answered `true`, the stretch starting in the
state that `before` leaves. -/
def admitted (breaker : CircuitBreaker) (before stretch : List Call) : Nat :=
  (replies breaker.step (breaker.after before) stretch).count (some true)

/-- From a transition `opened → halfOpen` until the next reported outcome, exactly
one `allow_at` returns true, counting the one that made the transition. -/
def SingleTrial (breaker : CircuitBreaker) (calls : List Call) : Prop :=
  ∀ before now between rest, calls = before ++ .allowAt now :: (between ++ rest) →
    (breaker.after before).state = .opened →
    (breaker.after (before ++ [.allowAt now])).state = .halfOpen →
    (∀ call ∈ between, call.isRecord = false) →
    admitted breaker before (.allowAt now :: between) = 1

/-- No caller asks while a trial is under way. -/
def NoCallerWhileHalfOpen (breaker : CircuitBreaker) (calls : List Call) : Prop :=
  ∀ before now rest, calls = before ++ .allowAt now :: rest →
    (breaker.after before).state ≠ .halfOpen

/-- In the half-open state every caller is admitted and the record does not
change, until an outcome is reported. -/
theorem replies_halfOpen (breaker : CircuitBreaker) {inner : Inner}
    (hhalf : inner.state = .halfOpen) (stretch : List Call)
    (hrecords : ∀ call ∈ stretch, call.isRecord = false) :
    (replies breaker.step inner stretch).count (some true) = stretch.length := by
  induction stretch with
  | nil => rfl
  | cons call stretch ih =>
      cases call with
      | recordSuccess => exact absurd (hrecords .recordSuccess (by simp)) (by decide)
      | recordFailureAt now =>
          exact absurd (hrecords (.recordFailureAt now) (by simp)) (by simp [Call.isRecord])
      | allowAt now =>
          have hrest := ih fun call hcall => hrecords call (List.mem_cons_of_mem _ hcall)
          simp only [replies, step, allowAt_halfOpen hhalf, List.count_cons_self, hrest,
            List.length_cons]

/-- The transition into `halfOpen` admits its own caller, and every caller that
follows before an outcome is reported is admitted too. -/
theorem admitted_trial (breaker : CircuitBreaker) (before between : List Call) (now : Instant)
    (hopened : (breaker.after before).state = .opened)
    (hhalf : (breaker.after (before ++ [.allowAt now])).state = .halfOpen)
    (hrecords : ∀ call ∈ between, call.isRecord = false) :
    admitted breaker before (.allowAt now :: between) = between.length + 1 := by
  rw [after_append_singleton] at hhalf
  obtain ⟨deadline, huntil⟩ := openUntil_of_opened breaker before hopened
  have hlate : deadline ≤ now := by
    by_contra hearly
    change (allowAt (breaker.after before) now).2.state = .halfOpen at hhalf
    rw [allowAt_opened_early hopened huntil (Nat.not_le.mp hearly), hopened] at hhalf
    cases hhalf
  have htrue : (allowAt (breaker.after before) now).1 = true := by
    rw [allowAt_opened_late hopened huntil hlate]
  have hreply : (breaker.step (breaker.after before) (.allowAt now)).1 = some true := by
    simp [step, htrue]
  simp only [admitted, replies, hreply, List.count_cons_self,
    replies_halfOpen breaker hhalf between hrecords]

/-- A half-open breaker became so by an `allow_at` on the open breaker, and no
outcome has been reported since. -/
theorem trial_of_halfOpen (breaker : CircuitBreaker) (calls : List Call)
    (hhalf : (breaker.after calls).state = .halfOpen) :
    ∃ before now between, calls = before ++ .allowAt now :: between ∧
      (breaker.after before).state = .opened ∧
      (breaker.after (before ++ [.allowAt now])).state = .halfOpen ∧
      ∀ call ∈ between, call.isRecord = false := by
  induction calls using List.reverseRecOn with
  | nil => cases hhalf
  | append_singleton calls call ih =>
      have hstep := hhalf
      rw [after_append_singleton] at hstep
      cases call with
      | recordSuccess => cases hstep
      | recordFailureAt now =>
          change (breaker.recordFailureAt (breaker.after calls) now).state = .halfOpen at hstep
          rcases recordFailureAt_cases breaker (breaker.after calls) now with
            ⟨hopened, -⟩ | ⟨hnot, hsame, -⟩
          · rw [hopened] at hstep
            cases hstep
          · exact absurd (hsame ▸ hstep) hnot
      | allowAt now =>
          change (allowAt (breaker.after calls) now).2.state = .halfOpen at hstep
          rcases allowAt_state (breaker.after calls) now with hsame | ⟨hopened, -⟩
          · obtain ⟨before, first, between, hcalls, hopened, hfirst, hrecords⟩ :=
              ih (hsame ▸ hstep)
            refine ⟨before, first, between ++ [.allowAt now], by simp [hcalls], hopened, hfirst, ?_⟩
            intro call hcall
            rcases List.mem_append.mp hcall with hold | hnew
            · exact hrecords call hold
            · rw [List.mem_singleton.mp hnew]
              rfl
          · exact ⟨calls, now, [], rfl, hopened, hhalf, by simp⟩

/-- **When a half-open breaker runs a single trial.**  For every run of calls in
any interleaving, each transition into `halfOpen` admits exactly one caller before
the next outcome is reported if and only if no caller asks a half-open breaker. -/
theorem singleTrial_iff (failureThreshold : UInt32) (openSecs : UInt64) (calls : List Call) :
    SingleTrial (new failureThreshold openSecs) calls ↔
      NoCallerWhileHalfOpen (new failureThreshold openSecs) calls := by
  set breaker := new failureThreshold openSecs
  constructor
  · intro hsingle before now rest hcalls hhalf
    obtain ⟨start, first, between, hbefore, hopened, hfirst, hrecords⟩ :=
      trial_of_halfOpen breaker before hhalf
    have hrecords' : ∀ call ∈ between ++ [.allowAt now], call.isRecord = false := by
      intro call hcall
      rcases List.mem_append.mp hcall with hold | hnew
      · exact hrecords call hold
      · rw [List.mem_singleton.mp hnew]
        rfl
    have hone := hsingle start first (between ++ [.allowAt now]) rest
      (by simp [hcalls, hbefore]) hopened hfirst hrecords'
    rw [admitted_trial breaker start _ first hopened hfirst hrecords'] at hone
    simp at hone
  · intro hnone before now between rest hcalls hopened hhalf hrecords
    rw [admitted_trial breaker before between now hopened hhalf hrecords]
    cases between with
    | nil => rfl
    | cons call between =>
        -- The first call of the stretch would be a caller of a half-open breaker.
        cases call with
        | recordSuccess => exact absurd (hrecords .recordSuccess (by simp)) (by decide)
        | recordFailureAt later =>
            exact absurd (hrecords (.recordFailureAt later) (by simp)) (by simp [Call.isRecord])
        | allowAt later =>
            exact absurd hhalf (hnone (before ++ [.allowAt now]) later (between ++ rest)
              (by simp [hcalls]))

/-- After a cooldown of one second two callers in a row are admitted to the
half-open breaker before the outcome of either is known. -/
theorem second_caller_joins_trial :
    ¬ SingleTrial (new 1 1) [.recordFailureAt 0, .allowAt 1000000000, .allowAt 1000000001] := by
  intro hsingle
  have hone := hsingle [.recordFailureAt 0] 1000000000 [.allowAt 1000000001] [] rfl
    (by decide) (by decide) (by decide)
  exact absurd hone (by decide)

end CircuitBreaker
end Gateway
end ApiGateway
