import ApiGateway.Gateway.RateLimit
import ApiGateway.Library.FixedWindow

/-!
# The law of the in-memory limiter

The map of the limiter holds, for every key, when the current window of that key began
and how many checks it has had.  `lookup_after` says so of every run, with the windows of
`Library.visits`; the counter is the number of checks modulo `2 ^ 32`.

`fixed_window_law` is the behaviour seen by the callers.  The checks of other keys do not
occur in it at all, since the windows of a key are those of its own checks.
-/

namespace ApiGateway
namespace Gateway

open Library

/-- Whether a counter value is within the limit, below the point where it wraps. -/
theorem ofNat_le_iff {n : Nat} (hn : n < 2 ^ 32) (limit : UInt32) :
    UInt32.ofNat n ≤ limit ↔ n ≤ limit.toNat := by
  rw [UInt32.le_iff_toNat_le, UInt32.toNat_ofNat_of_lt' hn]

theorem decision_allowed {n : Nat} (hn : n < 2 ^ 32) (limit : UInt32) (resetSecs : UInt64) :
    (decision limit (UInt32.ofNat n) resetSecs).allowed = decide (n ≤ limit.toNat) :=
  decide_eq_decide.mpr (ofNat_le_iff hn limit)

theorem decision_remaining {n : Nat} (hn : n < 2 ^ 32) (limit : UInt32) (resetSecs : UInt64) :
    (decision limit (UInt32.ofNat n) resetSecs).remaining.toNat =
      limit.toNat - min n limit.toNat := by
  have hle := ofNat_le_iff hn limit
  show (saturatingSub limit (min (UInt32.ofNat n) limit)).toNat = _
  unfold saturatingSub
  by_cases hwithin : n ≤ limit.toNat
  · have hmin : min (UInt32.ofNat n) limit = UInt32.ofNat n := by
      show (if UInt32.ofNat n ≤ limit then UInt32.ofNat n else limit) = _
      rw [if_pos (hle.mpr hwithin)]
    rw [hmin, if_pos (hle.mpr hwithin), UInt32.toNat_sub_of_le _ _ (hle.mpr hwithin),
      UInt32.toNat_ofNat_of_lt' hn]
    omega
  · have hmin : min (UInt32.ofNat n) limit = limit := by
      show (if UInt32.ofNat n ≤ limit then UInt32.ofNat n else limit) = _
      rw [if_neg (fun h => hwithin (hle.mp h))]
    rw [hmin, if_pos (UInt32.le_refl _)]
    simp
    omega

namespace InMemoryLimiter

/-- One call of `check`. -/
structure Check where
  key : String
  limit : UInt32
  window : Duration
  now : Instant
  deriving DecidableEq, Repr

def step (windows : Windows) (call : Check) : RateDecision × Windows :=
  check windows call.key call.limit call.window call.now

/-- The map after the given checks of a new limiter. -/
def after (history : List Check) : Windows := run step ∅ history

/-- The checks of one key, as arrivals. -/
def arrivalsOf (key : String) (history : List Check) : List Arrival :=
  history.filterMap fun call => if call.key = key then some ⟨call.now, call.window⟩ else none

/-- The window of a check, and its place in it, given the checks before it. -/
def placeOf (history : List Check) (call : Check) : Visit :=
  Visit.next (visits (arrivalsOf call.key history)).getLast? ⟨call.now, call.window⟩

/-- What the map holds after a visit. -/
def slotOf (visit : Visit) : Instant × UInt32 := (visit.start, UInt32.ofNat visit.ordinal)

theorem arrivalsOf_snoc_self (history : List Check) (call : Check) :
    arrivalsOf call.key (history ++ [call]) =
      arrivalsOf call.key history ++ [⟨call.now, call.window⟩] := by
  simp [arrivalsOf]

theorem arrivalsOf_snoc_ne (history : List Check) {call : Check} {key : String}
    (h : call.key ≠ key) : arrivalsOf key (history ++ [call]) = arrivalsOf key history := by
  simp [arrivalsOf, h]

/-- The place of a check is among the visits of its key. -/
theorem placeOf_mem (before : List Check) (call : Check) (rest : List Check) :
    placeOf before call ∈ visits (arrivalsOf call.key (before ++ call :: rest)) := by
  have hplaced : placeOf before call ∈ visits (arrivalsOf call.key (before ++ [call])) := by
    rw [arrivalsOf_snoc_self, visits_snoc]
    exact List.mem_append_right _ List.mem_cons_self
  have hsplit : arrivalsOf call.key (before ++ call :: rest) =
      arrivalsOf call.key (before ++ [call]) ++ arrivalsOf call.key rest := by
    simp [arrivalsOf]
  rw [hsplit]
  exact mem_visits_append hplaced _

/-- What relates the visits of a key in their order relates the places of two checks. -/
theorem placeOf_related {related : Visit → Visit → Prop} (before between : List Check)
    {call later : Check} (hkey : later.key = call.key)
    (h : (visits (arrivalsOf later.key (before ++ call :: between ++ [later]))).Pairwise related) :
    related (placeOf before call) (placeOf (before ++ call :: between) later) := by
  have hearlier := placeOf_mem before call between
  rw [arrivalsOf_snoc_self, visits_snoc, List.pairwise_append] at h
  rw [← hkey] at hearlier
  exact h.2.2 _ hearlier _ List.mem_cons_self

/-- Of two checks of one key the earlier one has the earlier place. -/
theorem placeOf_precedes (before between : List Check) {call later : Check}
    (hkey : later.key = call.key) :
    Visit.Precedes (placeOf before call) (placeOf (before ++ call :: between) later) :=
  placeOf_related before between hkey (pairwise_precedes_visits _)

/-- A check of a key whose slot is that of the last visit makes the next visit. -/
theorem check_eq {windows : Windows} {key : String} {last : Option Visit}
    (hslot : windows.lookup key = last.map slotOf) (limit : UInt32) (window : Duration)
    (now : Instant) :
    check windows key limit window now =
      (decision limit (UInt32.ofNat (Visit.next last ⟨now, window⟩).ordinal)
          (asSecs (window - (now - (Visit.next last ⟨now, window⟩).start))),
        windows.insert key (slotOf (Visit.next last ⟨now, window⟩))) := by
  unfold check
  rw [hslot]
  cases last with
  | none =>
      -- A new key: whether its window of no time has run out does not matter.
      simp only [Option.map_none, Option.getD_none, ite_self]
      rfl
  | some last =>
      simp only [Option.map_some, Option.getD_some]
      rcases Visit.next_some_cases last ⟨now, window⟩ with ⟨hover, hnext⟩ | ⟨hwithin, hnext⟩
      · have hrunOut : window ≤ now - (slotOf last).1 := hover
        rw [hnext, if_pos hrunOut]
        rfl
      · have hrunning : ¬ window ≤ now - (slotOf last).1 := Nat.not_le.mpr hwithin
        rw [hnext, if_neg hrunning]
        simp only [slotOf, UInt32.ofNat_add]
        rfl

/-- **What the map holds.**  For every key the beginning of its current window and the
number of checks in it. -/
theorem lookup_after (history : List Check) (key : String) :
    (after history).lookup key = (visits (arrivalsOf key history)).getLast?.map slotOf := by
  induction history using List.reverseRecOn generalizing key with
  | nil => rfl
  | append_singleton history call ih =>
      have hafter : after (history ++ [call]) =
          (after history).insert call.key (slotOf (placeOf history call)) := by
        rw [after, run_append]
        show (check (after history) _ _ _ _).2 = _
        rw [check_eq (ih call.key)]
        rfl
      rw [hafter]
      by_cases hkey : call.key = key
      · subst hkey
        rw [AList.lookup_insert, arrivalsOf_snoc_self, visits_snoc]
        simp [placeOf]
      · rw [AList.lookup_insert_ne (Ne.symm hkey), ih, arrivalsOf_snoc_ne _ hkey]

/-- The answer to a check depends on the checks of its own key alone. -/
theorem reply_eq (history : List Check) (call : Check) :
    (step (after history) call).1 =
      decision call.limit (UInt32.ofNat (placeOf history call).ordinal)
        (asSecs (call.window - (call.now - (placeOf history call).start))) := by
  show (check _ _ _ _ _).1 = _
  rw [check_eq (lookup_after history call.key)]
  rfl

theorem arrivalsOf_filter (key : String) (history : List Check) :
    arrivalsOf key (history.filter (·.key = key)) = arrivalsOf key history := by
  unfold arrivalsOf
  rw [List.filterMap_filter]
  congr 1
  funext call
  by_cases hkey : call.key = key
  · simp [hkey]
  · simp [hkey]

/-- **The checks of other keys change nothing**: the decisions on a key are those of the
run that has only the checks of the key. -/
theorem answered_filter (key : String) (calls : List Check) :
    (answered step ∅ calls).filter (·.1.key = key) =
      answered step ∅ (calls.filter (·.key = key)) := by
  induction calls using List.reverseRecOn with
  | nil => rfl
  | append_singleton history call ih =>
      rw [answered_snoc, List.filter_append, List.filter_append, ih]
      by_cases hkey : call.key = key
      · subst hkey
        have hreply : (step (after history) call).1 =
            (step (after (history.filter (·.key = call.key))) call).1 := by
          rw [reply_eq, reply_eq, placeOf, placeOf, arrivalsOf_filter]
        simp only [decide_true, List.filter_cons_of_pos, List.filter_nil, answered_snoc]
        rw [show run step ∅ history = after history from rfl, hreply]
        rfl
      · simp [hkey]

/-- The checks of a key, each with its time and whether it was allowed. -/
theorem outcomes_eq {calls : List Check} {key : String} {limit : UInt32}
    (hlimit : ∀ call ∈ calls, call.key = key → call.limit = limit)
    (hfew : ∀ visit ∈ visits (arrivalsOf key calls), visit.ordinal < 2 ^ 32) :
    ((answered step ∅ calls).filter (·.1.key = key)).map
        (fun entry => (entry.1.now, entry.2.allowed)) =
      (visits (arrivalsOf key calls)).map
        (fun visit => (visit.time, decide (visit.ordinal ≤ limit.toNat))) := by
  induction calls using List.reverseRecOn with
  | nil => rfl
  | append_singleton history call ih =>
      have hlimit' : ∀ earlier ∈ history, earlier.key = key → earlier.limit = limit :=
        fun earlier hearlier => hlimit earlier (List.mem_append_left _ hearlier)
      rw [answered_snoc, List.filter_append, List.map_append]
      by_cases hkey : call.key = key
      · subst hkey
        rw [arrivalsOf_snoc_self, visits_snoc] at hfew
        rw [arrivalsOf_snoc_self, visits_snoc, List.map_append,
          ih hlimit' fun visit hvisit => hfew visit (List.mem_append_left _ hvisit)]
        have hordinal : (placeOf history call).ordinal < 2 ^ 32 :=
          hfew _ (List.mem_append_right _ List.mem_cons_self)
        have hreply := reply_eq history call
        rw [hlimit call (by simp) rfl] at hreply
        have hallowed : (step (after history) call).1.allowed =
            decide ((placeOf history call).ordinal ≤ limit.toNat) := by
          rw [hreply, decision_allowed hordinal]
        simp only [decide_true, List.filter_cons_of_pos, List.filter_nil, List.map_cons,
          List.map_nil, Visit.next_time]
        rw [show run step ∅ history = after history from rfl, hallowed]
        rfl
      · rw [arrivalsOf_snoc_ne _ hkey] at hfew
        rw [arrivalsOf_snoc_ne _ hkey, ih hlimit' hfew]
        simp [hkey]

theorem arrivalsOf_eq_arrivalsAt {calls : List Check} {key : String} {window : Duration}
    (hwindow : ∀ call ∈ calls, call.key = key → call.window = window) :
    arrivalsOf key calls =
      arrivalsAt window ((calls.filter (·.key = key)).map Check.now) := by
  induction calls with
  | nil => rfl
  | cons call calls ih =>
      have hrest := ih fun later hlater => hwindow later (List.mem_cons_of_mem _ hlater)
      by_cases hkey : call.key = key
      · have hcall := hwindow call List.mem_cons_self hkey
        simp only [arrivalsOf, arrivalsAt] at hrest ⊢
        simp [hkey, hcall, hrest]
      · simp only [arrivalsOf, arrivalsAt] at hrest ⊢
        simp [hkey, hrest]

/-- The allowed checks of a key in an interval of one window length. -/
def allowedWithin (calls : List Check) (key : String) (start : Instant) (length : Duration) :
    Nat :=
  (answered step ∅ calls).countP fun entry =>
    entry.1.key = key ∧ entry.2.allowed = true ∧ start ≤ entry.1.now ∧
      entry.1.now < start + length

theorem allowedWithin_le {calls : List Check} (horder : (calls.map Check.now).Pairwise (· ≤ ·))
    {key : String} {limit : UInt32} {window : Duration}
    (hfixed : ∀ call ∈ calls, call.key = key → call.limit = limit ∧ call.window = window)
    (hfew : ∀ visit ∈ visits (arrivalsOf key calls), visit.ordinal < 2 ^ 32) (start : Instant) :
    allowedWithin calls key start window ≤ 2 * limit.toNat := by
  have houtcomes := outcomes_eq (fun call hcall hkey => (hfixed call hcall hkey).1) hfew
  have hsorted : ((calls.filter (·.key = key)).map Check.now).Pairwise (· ≤ ·) :=
    horder.sublist (List.filter_sublist.map _)
  have hbound := countP_interval_le window hsorted start limit.toNat
  rw [← arrivalsOf_eq_arrivalsAt fun call hcall hkey => (hfixed call hcall hkey).2] at hbound
  -- Both counts are counts over the pairs of a time and a verdict.
  let inside : Instant × Bool → Bool := fun outcome =>
    decide (outcome.2 = true ∧ start ≤ outcome.1 ∧ outcome.1 < start + window)
  calc allowedWithin calls key start window
      = ((answered step ∅ calls).filter (·.1.key = key)).countP
          (inside ∘ fun entry => (entry.1.now, entry.2.allowed)) := by
        rw [allowedWithin, List.countP_filter]
        apply List.countP_congr
        intro entry _
        simp [inside, and_comm]
    _ = ((visits (arrivalsOf key calls)).map
          fun visit => (visit.time, decide (visit.ordinal ≤ limit.toNat))).countP inside := by
        rw [← houtcomes, List.countP_map]
    _ = (visits (arrivalsOf key calls)).countP (fun visit => start ≤ visit.time ∧
          visit.time < start + window ∧ visit.ordinal ≤ limit.toNat) := by
        rw [List.countP_map]
        apply List.countP_congr
        intro visit _
        simp [inside, and_comm, and_assoc]
    _ ≤ 2 * limit.toNat := hbound

/-- **The fixed-window law.**  In every run with nondecreasing times, a fixed limit and
window for each key and fewer than `2 ^ 32` checks of a key in one window: a check is
allowed exactly when its place in its window is within the limit, and reports what is
left; every half-open interval of one window length has at most twice the limit of
allowed checks; and the decisions on a key do not depend on the checks of other keys. -/
theorem fixed_window_law (calls : List Check)
    (horder : (calls.map Check.now).Pairwise (· ≤ ·))
    (hfixed : ∀ call ∈ calls, ∀ other ∈ calls, call.key = other.key →
      call.limit = other.limit ∧ call.window = other.window)
    (hfew : ∀ key, ∀ visit ∈ visits (arrivalsOf key calls), visit.ordinal < 2 ^ 32) :
    (∀ before call rest, calls = before ++ call :: rest →
      (step (after before) call).1.allowed =
          decide ((placeOf before call).ordinal ≤ call.limit.toNat) ∧
        (step (after before) call).1.remaining.toNat =
          call.limit.toNat - min (placeOf before call).ordinal call.limit.toNat) ∧
    (∀ call ∈ calls, ∀ start,
      allowedWithin calls call.key start call.window ≤ 2 * call.limit.toNat) ∧
    ∀ key, (answered step ∅ calls).filter (·.1.key = key) =
      answered step ∅ (calls.filter (·.key = key)) := by
  refine ⟨?_, ?_, fun key => answered_filter key calls⟩
  · rintro before call rest rfl
    have hordinal := hfew call.key _ (placeOf_mem before call rest)
    rw [reply_eq]
    exact ⟨decision_allowed hordinal _ _, decision_remaining hordinal _ _⟩
  · intro call hcall start
    apply allowedWithin_le horder _ (hfew call.key) start
    intro other hother hkey
    obtain ⟨hlimit, hwindow⟩ := hfixed other hother call hcall hkey
    exact ⟨hlimit, hwindow⟩

/-- Two keys, a limit of one, windows of ten: the third check is refused and the fourth
begins a window. -/
def twoKeyRun : List Check :=
  [⟨"a", 1, 10, 0⟩, ⟨"b", 1, 10, 3⟩, ⟨"a", 1, 10, 9⟩, ⟨"a", 1, 10, 10⟩]

theorem fixed_window_law_twoKey :
    (twoKeyRun.map Check.now).Pairwise (· ≤ ·) ∧
      (step (after (twoKeyRun.take 2)) ⟨"a", 1, 10, 9⟩).1.allowed = false ∧
      allowedWithin twoKeyRun "a" 1 10 ≤ 2 ∧
      (answered step ∅ twoKeyRun).filter (·.1.key = "b") = answered step ∅ [⟨"b", 1, 10, 3⟩] := by
  have horder : (twoKeyRun.map Check.now).Pairwise (· ≤ ·) := by decide
  have hfew : ∀ key, ∀ visit ∈ visits (arrivalsOf key twoKeyRun), visit.ordinal < 2 ^ 32 := by
    intro key visit hvisit
    have hplace := visits_ordinal_le _ visit hvisit
    have hlength : (arrivalsOf key twoKeyRun).length ≤ 4 := List.length_filterMap_le _ _
    omega
  obtain ⟨hplaces, hinterval, hkeys⟩ := fixed_window_law twoKeyRun horder (by decide) hfew
  refine ⟨horder, ?_, hinterval ⟨"a", 1, 10, 0⟩ (by decide) 1, hkeys "b"⟩
  rw [(hplaces (twoKeyRun.take 2) ⟨"a", 1, 10, 9⟩ [⟨"a", 1, 10, 10⟩] rfl).1]
  decide

end InMemoryLimiter
end Gateway
end ApiGateway
