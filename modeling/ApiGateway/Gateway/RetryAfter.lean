import ApiGateway.Gateway.Answers
import ApiGateway.Gateway.Refusal
import ApiGateway.Gateway.TransformLaws

/-!
# When to come back

A refused caller is told after how many seconds to try again: the time left in its window
without the fraction of a second.  Whoever waits just so long comes back before the window
has ended, unless the time left was a whole number of seconds.  A check that comes back too
early is refused, but for the one that takes the counter from its largest value to zero.
-/

namespace ApiGateway
namespace Gateway

open Library Core

namespace InMemoryLimiter

/-- After a refused check, the next check of the key is allowed when it comes no sooner than
the reported number of seconds later.  The checks in between are of other keys. -/
def RetrySuffices (history : List Check) (call : Check) : Prop :=
  ∀ between later,
    ((history ++ call :: between ++ [later]).map Check.now).Pairwise (· ≤ ·) →
    (∀ other ∈ between, other.key ≠ call.key) →
    later.key = call.key → later.limit = call.limit → later.window = call.window →
    call.now + Duration.fromSecs (step (after history) call).1.resetSecs.toNat ≤ later.now →
    (step (after (history ++ call :: between)) later).1.allowed = true

/-- The same check at another time. -/
def Check.repeated (call : Check) (time : Instant) : Check := { call with now := time }

/-- A check repeated at the end of a run. -/
theorem pairwise_repeated {history : List Check} {call : Check} {time : Instant}
    (horder : ((history ++ [call]).map Check.now).Pairwise (· ≤ ·)) (htime : call.now ≤ time) :
    ((history ++ call :: [] ++ [call.repeated time]).map Check.now).Pairwise (· ≤ ·) := by
  rw [List.map_append, List.pairwise_append]
  refine ⟨horder, List.pairwise_singleton _ _, ?_⟩
  intro earlier hearlier last hlast
  obtain rfl : last = time := List.mem_singleton.mp hlast
  rw [List.map_append, List.mem_append] at hearlier
  rw [List.map_append, List.pairwise_append] at horder
  rcases hearlier with hold | hnew
  · exact Nat.le_trans (horder.2.2 earlier hold call.now List.mem_cons_self) htime
  · rw [List.mem_singleton.mp hnew]
    exact htime

theorem RetrySuffices.repeated {history : List Check} {call : Check}
    (h : RetrySuffices history call)
    (horder : ((history ++ [call]).map Check.now).Pairwise (· ≤ ·)) {time : Instant}
    (htime : call.now + Duration.fromSecs (step (after history) call).1.resetSecs.toNat ≤ time) :
    (step (after (history ++ [call])) (call.repeated time)).1.allowed = true :=
  h [] (call.repeated time) (pairwise_repeated horder (Nat.le_trans (Nat.le_add_right _ _) htime))
    (fun _ hother => absurd hother List.not_mem_nil) rfl rfl rfl htime

/-- The place of the next check of a key. -/
theorem placeOf_next {history between : List Check} {call later : Check}
    (hbetween : ∀ other ∈ between, other.key ≠ call.key) (hkey : later.key = call.key) :
    placeOf (history ++ call :: between) later =
      Visit.next (some (placeOf history call)) ⟨later.now, later.window⟩ := by
  have hnone : arrivalsOf call.key between = [] := by
    rw [arrivalsOf, List.filterMap_eq_nil_iff]
    intro other hother
    rw [if_neg (hbetween other hother)]
  have harrivals : arrivalsOf call.key (history ++ call :: between) =
      arrivalsOf call.key (history ++ [call]) := by
    have hsplit : history ++ call :: between = (history ++ [call]) ++ between := by simp
    rw [hsplit]
    simp only [arrivalsOf, List.filterMap_append] at hnone ⊢
    rw [hnone, List.append_nil]
  rw [placeOf, hkey, harrivals, arrivalsOf_snoc_self, visits_snoc, List.getLast?_concat]
  rfl

/-! ## The time left -/

section TimeLeft

variable {start now window : Nat} (hbegan : start ≤ now)

include hbegan

theorem time_left_eq : window - (now - start) = start + window - now := by
  omega

theorem time_left_le : start + window - now ≤ window := by
  omega

/-- Waiting for the whole seconds of the time left reaches the end of the window, when
nothing is lost by the rounding. -/
theorem ended_of_dvd {later : Nat} (hdvd : 1000000000 ∣ start + window - now)
    (hwait : now + Duration.fromSecs ((start + window - now) / 1000000000) ≤ later) :
    window ≤ later - start := by
  rw [Duration.fromSecs, Nat.div_mul_cancel hdvd] at hwait
  omega

/-- Else it ends before. -/
theorem not_ended_of_not_dvd (hdvd : ¬ 1000000000 ∣ start + window - now) :
    ¬ window ≤ now + Duration.fromSecs ((start + window - now) / 1000000000) - start := by
  rw [Duration.fromSecs]
  omega

end TimeLeft

/-! ## The check after a refused one -/

section Refused

variable {history : List Check} {call : Check}
variable (hlimit : 1 ≤ call.limit.toNat)
variable (hrefused : (step (after history) call).1.allowed = false)

include hlimit hrefused

/-- What the map held for the key of a refused check. -/
theorem slot_of_refused :
    (after history).lookup call.key = some ((placeOf history call).start,
        UInt32.ofNat ((placeOf history call).ordinal - 1)) ∧
      call.limit.toNat < (placeOf history call).ordinal % 2 ^ 32 ∧
      call.now < (placeOf history call).start + call.window := by
  rw [allowed_eq, decide_eq_false_iff_not, Nat.not_le] at hrefused
  have hmod := Nat.mod_le (placeOf history call).ordinal (2 ^ 32)
  obtain ⟨last, hlast, hplace, hwithin⟩ := exists_last_of_one_lt
    (show 1 < (placeOf history call).ordinal by omega)
  rw [lookup_after, hlast]
  refine ⟨?_, hrefused, ?_⟩
  · rw [hplace]
    rfl
  · rw [hplace]
    exact hwithin

/-- The next check of the key is allowed when the window has ended by then, or when it takes
the counter to zero. -/
theorem next_allowed_iff {between : List Check} {later : Check}
    (hbetween : ∀ other ∈ between, other.key ≠ call.key) (hkey : later.key = call.key)
    (hsame : later.limit = call.limit) (hwindow : later.window = call.window) :
    (step (after (history ++ call :: between)) later).1.allowed = true ↔
      call.window ≤ later.now - (placeOf history call).start ∨
        (placeOf history call).ordinal % 2 ^ 32 = 2 ^ 32 - 1 := by
  obtain ⟨-, hbeyond, -⟩ := slot_of_refused hlimit hrefused
  rw [allowed_eq, placeOf_next hbetween hkey, hsame, hwindow, decide_eq_true_iff]
  rcases Visit.next_some_cases (placeOf history call) ⟨later.now, call.window⟩ with
    ⟨hover, hnext⟩ | ⟨hwithin, hnext⟩
  · rw [hnext]
    exact ⟨fun _ => Or.inl hover, fun _ => Nat.le_trans (Nat.mod_le _ _) hlimit⟩
  · rw [hnext]
    have hrunning : ¬ call.window ≤ later.now - (placeOf history call).start :=
      Nat.not_le.mpr hwithin
    simp only [hrunning, false_or]
    omega

theorem repeated_allowed_iff (time : Instant) :
    (step (after (history ++ [call])) (call.repeated time)).1.allowed = true ↔
      call.window ≤ time - (placeOf history call).start ∨
        (placeOf history call).ordinal % 2 ^ 32 = 2 ^ 32 - 1 := by
  have hkey : (call.repeated time).key = call.key := rfl
  exact next_allowed_iff hlimit hrefused (fun _ hother => absurd hother List.not_mem_nil) hkey
    rfl rfl

/-- The reported seconds are the whole seconds of the time left in the window. -/
theorem resetSecs_of_refused
    (horder : ((history ++ [call]).map Check.now).Pairwise (· ≤ ·))
    (hwindow : call.window < Duration.fromSecs (2 ^ 64)) :
    (step (after history) call).1.resetSecs.toNat =
      ((placeOf history call).start + call.window - call.now) / 1000000000 := by
  obtain ⟨-, -, hwithin⟩ := slot_of_refused hlimit hrefused
  have hbegan := placeOf_start_le horder
  have hleft : call.window - (call.now - (placeOf history call).start) =
      (placeOf history call).start + call.window - call.now :=
    time_left_eq hbegan
  rw [reply_eq]
  show (asSecs _).toNat = _
  rw [hleft, asSecs, UInt64.toNat_ofNat_of_lt']
  apply Nat.div_lt_of_lt_mul
  have hbound : Duration.fromSecs (2 ^ 64) = 1000000000 * UInt64.size := by decide
  calc (placeOf history call).start + call.window - call.now ≤ call.window := time_left_le hbegan
    _ < 1000000000 * UInt64.size := hbound ▸ hwindow

/-- **Coming back as told.**  The next check of the key is allowed after every wait of the
reported length exactly when the time left was a whole number of seconds, or the recorded
counter is about to come round. -/
theorem retrySuffices_iff (horder : ((history ++ [call]).map Check.now).Pairwise (· ≤ ·))
    (hwindow : call.window < Duration.fromSecs (2 ^ 64)) :
    RetrySuffices history call ↔
      ∃ start used, (after history).lookup call.key = some (start, used) ∧
        (1000000000 ∣ start + call.window - call.now ∨ used.toNat + 1 = 2 ^ 32 - 1) := by
  obtain ⟨hslot, hbeyond, hwithin⟩ := slot_of_refused hlimit hrefused
  have hreset := resetSecs_of_refused hlimit hrefused horder hwindow
  have hbegan := placeOf_start_le horder
  have hcounter : (UInt32.ofNat ((placeOf history call).ordinal - 1)).toNat + 1 = 2 ^ 32 - 1 ↔
      (placeOf history call).ordinal % 2 ^ 32 = 2 ^ 32 - 1 := by
    rw [UInt32.toNat_ofNat']
    omega
  constructor
  · intro hsuffices
    refine ⟨_, _, hslot, ?_⟩
    rw [hcounter]
    by_cases hwhole : 1000000000 ∣ (placeOf history call).start + call.window - call.now
    · exact Or.inl hwhole
    · -- The check made at the reported time exactly, with nothing in between.
      right
      have hallowed := hsuffices.repeated horder (Nat.le_refl _)
      rw [repeated_allowed_iff hlimit hrefused, hreset] at hallowed
      exact hallowed.resolve_left (not_ended_of_not_dvd hbegan hwhole)
  · rintro ⟨start, used, hrecorded, hcondition⟩ between later - hbetween hkey hsame hlength hwait
    obtain ⟨rfl, rfl⟩ := Prod.mk.inj (Option.some.inj (hslot.symm.trans hrecorded))
    rw [hcounter] at hcondition
    rw [next_allowed_iff hlimit hrefused hbetween hkey hsame hlength]
    rw [hreset] at hwait
    exact hcondition.imp_left fun hwhole => ended_of_dvd hbegan hwhole hwait

end Refused

end InMemoryLimiter

/-! ## What the caller is sent -/

theorem isReadable_ofNat (n : Nat) :
    ∀ char ∈ (Text.ofNat n).toList, HeaderValue.IsReadable char := by
  intro char hchar
  rw [Text.ofNat, String.toList_ofList] at hchar
  have hdigit := Nat.isDigit_of_mem_toDigits (by decide) (by decide) hchar
  simp only [Char.isDigit, Bool.and_eq_true, decide_eq_true_eq, UInt32.le_iff_toNat_le] at hdigit
  obtain ⟨hlow, hhigh⟩ := hdigit
  left
  exact ⟨Nat.le_trans (by decide) hlow, Nat.lt_of_le_of_lt hhigh (by decide)⟩

/-- A number that a header is set to is its one value. -/
theorem getAll_setHeader_ofNat (headers : HeaderMap) {name : String} {set : HeaderName}
    (hset : HeaderName.fromBytes name = some set) (n : Nat) :
    ((setHeader headers name (Text.ofNat n)).getAll set).map HeaderValue.toStr =
      [some (Text.ofNat n)] := by
  obtain ⟨carried, hcarried, htext⟩ := getAll_setHeader_self hset (isReadable_ofNat n)
  rw [hcarried, List.map_singleton, htext]

/-- The response to a refused request carries the reported seconds twice. -/
theorem reset_of_limitedResponse (exchange : Exchange) (decision : RateDecision) :
    ((exchange.limitedResponse decision).headers.getAll
        ⟨"retry-after", by decide⟩).map HeaderValue.toStr =
      [some (Text.ofNat decision.resetSecs.toNat)] ∧
    ((exchange.limitedResponse decision).headers.getAll
        ⟨"x-ratelimit-reset", by decide⟩).map HeaderValue.toStr =
      [some (Text.ofNat decision.resetSecs.toNat)] := by
  have hreset : HeaderName.fromBytes "x-ratelimit-reset" =
      some ⟨"x-ratelimit-reset", by decide⟩ := by decide
  have hretry : HeaderName.fromBytes "retry-after" = some ⟨"retry-after", by decide⟩ := by decide
  unfold Exchange.limitedResponse addRatelimitHeaders
  simp only
  constructor
  · exact getAll_setHeader_ofNat _ hretry _
  · rw [getAll_setHeader_of_ne hretry (by decide)]
    exact getAll_setHeader_ofNat _ hreset _

open InMemoryLimiter in
/-- **When Retry-After is sufficient.**  In every state that checks in order of time lead to,
a check with a limit of at least one that is refused is answered with the reported seconds in
`Retry-After` and `X-RateLimit-Reset`; and the next check of the key after at least that many
seconds is allowed, at whatever time and whatever other keys are checked in between, if and
only if the time left in the recorded window is a whole number of seconds, or the refused
check has taken the recorded counter to the largest `u32`. -/
theorem retry_after_suffices_iff {history : List Check} {call : Check}
    (horder : ((history ++ [call]).map Check.now).Pairwise (· ≤ ·))
    (hlimit : 1 ≤ call.limit.toNat) (hwindow : call.window < Duration.fromSecs (2 ^ 64))
    (hrefused : (step (after history) call).1.allowed = false) (exchange : Exchange) :
    let sent := exchange.limitedResponse (step (after history) call).1
    let told := Text.ofNat (step (after history) call).1.resetSecs.toNat
    ((sent.headers.getAll ⟨"retry-after", by decide⟩).map HeaderValue.toStr = [some told] ∧
      (sent.headers.getAll ⟨"x-ratelimit-reset", by decide⟩).map HeaderValue.toStr =
        [some told]) ∧
    (RetrySuffices history call ↔
      ∃ start used, (after history).lookup call.key = some (start, used) ∧
        (1000000000 ∣ start + call.window - call.now ∨ used.toNat + 1 = 2 ^ 32 - 1)) :=
  ⟨reset_of_limitedResponse exchange _, retrySuffices_iff hlimit hrefused horder hwindow⟩

/-- A check of a key with a limit of one and a window of ten seconds. -/
def tenSeconds (now : Instant) : InMemoryLimiter.Check := ⟨"a", 1, 10000000000, now⟩

open InMemoryLimiter in
/-- Eight seconds are left, and eight seconds are told. -/
theorem retry_after_suffices_whole :
    (step (after [tenSeconds 0]) (tenSeconds 2000000000)).1.allowed = false ∧
      RetrySuffices [tenSeconds 0] (tenSeconds 2000000000) := by
  have hrefused : (step (after [tenSeconds 0]) (tenSeconds 2000000000)).1.allowed = false := by
    decide +kernel
  obtain ⟨-, hsuffices⟩ := retry_after_suffices_iff (by decide) (by decide) (by decide) hrefused
    (pairExchange .get)
  exact ⟨hrefused, hsuffices.mpr ⟨0, 1, by decide +kernel, Or.inl (by decide)⟩⟩

open InMemoryLimiter in
/-- Nine and a half seconds are left, and nine are told: the check after nine seconds is
refused. -/
theorem half_second_too_early :
    (step (after [tenSeconds 0]) (tenSeconds 500000000)).1.allowed = false ∧
      (step (after [tenSeconds 0]) (tenSeconds 500000000)).1.resetSecs = 9 ∧
      (step (after [tenSeconds 0, tenSeconds 500000000]) (tenSeconds 9500000000)).1.allowed =
        false ∧
      ¬ RetrySuffices [tenSeconds 0] (tenSeconds 500000000) := by
  have hearly : (step (after [tenSeconds 0, tenSeconds 500000000])
      (tenSeconds 9500000000)).1.allowed = false := by decide +kernel
  refine ⟨by decide +kernel, by decide +kernel, hearly, fun hsuffices => ?_⟩
  have hallowed := hsuffices.repeated (by decide)
    (show _ ≤ 9500000000 by decide +kernel)
  rw [show (tenSeconds 500000000).repeated 9500000000 = tenSeconds 9500000000 from rfl] at hallowed
  exact absurd hallowed (Bool.eq_false_iff.mp hearly)

end Gateway
end ApiGateway
