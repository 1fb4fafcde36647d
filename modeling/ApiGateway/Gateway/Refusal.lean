import ApiGateway.Gateway.LimiterEquivalence

/-!
# How long a refusal lasts

A refused check tells its caller that the limit of the window is used up.  It stays so as
long as the counter does: both limiters compare the low 32 bits of the count, so that after
`2 ^ 32` checks of one window the count starts again from zero.
-/

namespace ApiGateway
namespace Gateway

open Library

namespace InMemoryLimiter

/-! ## Places and the checks that have them -/

/-- Every visit of a key is the place of a check. -/
theorem exists_check_of_visit {key : String} {visit : Visit} {history : List Check}
    (h : visit ∈ visits (arrivalsOf key history)) :
    ∃ before call rest, history = before ++ call :: rest ∧ call.key = key ∧
      placeOf before call = visit := by
  induction history using List.reverseRecOn with
  | nil => exact absurd h List.not_mem_nil
  | append_singleton history call ih =>
      have hearlier : visit ∈ visits (arrivalsOf key history) →
          ∃ before earlier rest, history ++ [call] = before ++ earlier :: rest ∧
            earlier.key = key ∧ placeOf before earlier = visit := by
        intro hvisit
        obtain ⟨before, earlier, rest, hsplit, hkey, hplace⟩ := ih hvisit
        exact ⟨before, earlier, rest ++ [call], by rw [hsplit]; simp, hkey, hplace⟩
      by_cases hkey : call.key = key
      · subst hkey
        rw [arrivalsOf_snoc_self, visits_snoc] at h
        rcases List.mem_append.mp h with hold | hnew
        · exact hearlier hold
        · exact ⟨history, call, [], rfl, rfl, (List.mem_singleton.mp hnew).symm⟩
      · rw [arrivalsOf_snoc_ne _ hkey] at h
        exact hearlier h

/-- A check that does not begin a window is one place after the last visit of its key, and
the window has not ended. -/
theorem exists_last_of_one_lt {history : List Check} {call : Check}
    (h : 1 < (placeOf history call).ordinal) :
    ∃ last, (visits (arrivalsOf call.key history)).getLast? = some last ∧
      placeOf history call = ⟨call.now, last.window, last.start, last.ordinal + 1⟩ ∧
      call.now < last.start + call.window := by
  cases hlast : (visits (arrivalsOf call.key history)).getLast? with
  | none =>
      rw [placeOf, hlast] at h
      exact absurd h (Nat.lt_irrefl 1)
  | some last =>
      rw [placeOf, hlast] at h ⊢
      rcases Visit.next_some_cases last ⟨call.now, call.window⟩ with
        ⟨-, hnext⟩ | ⟨hwithin, hnext⟩
      · rw [hnext] at h
        exact absurd h (Nat.lt_irrefl 1)
      · refine ⟨last, rfl, hnext, Nat.lt_of_not_le fun hended => ?_⟩
        exact absurd hwithin (Nat.not_lt.mpr (Nat.le_sub_of_add_le' hended))

/-- The check of that last visit. -/
theorem exists_check_before (history : List Check) (call : Check)
    (h : 1 < (placeOf history call).ordinal) :
    call.now < (placeOf history call).start + call.window ∧
      ∃ before earlier between, history = before ++ earlier :: between ∧
        earlier.key = call.key ∧
        (placeOf before earlier).ordinal + 1 = (placeOf history call).ordinal ∧
        (placeOf before earlier).start = (placeOf history call).start := by
  obtain ⟨last, hlast, hplace, hwithin⟩ := exists_last_of_one_lt h
  obtain ⟨before, earlier, between, hsplit, hkey, hearlier⟩ :=
    exists_check_of_visit (List.mem_of_getLast? hlast)
  rw [hplace]
  refine ⟨hwithin, before, earlier, between, hsplit, hkey, ?_, ?_⟩
  · rw [hearlier]
  · rw [hearlier]

/-- Every smaller place of a window is that of an earlier check. -/
theorem exists_check_of_ordinal {n gap : Nat} (hpos : 0 < n) (history : List Check)
    (call : Check) (h : (placeOf history call).ordinal = n + gap + 1) :
    ∃ before earlier between, history = before ++ earlier :: between ∧
      earlier.key = call.key ∧ (placeOf before earlier).ordinal = n ∧
      (placeOf before earlier).start = (placeOf history call).start := by
  induction gap generalizing history call with
  | zero =>
      obtain ⟨-, before, earlier, between, hsplit, hkey, hordinal, hstart⟩ :=
        exists_check_before history call (by omega)
      exact ⟨before, earlier, between, hsplit, hkey, by omega, hstart⟩
  | succ gap ih =>
      obtain ⟨-, before, middle, between, hsplit, hkey, hordinal, hstart⟩ :=
        exists_check_before history call (by omega)
      obtain ⟨start, earlier, past, hbefore, hkey', hplace, hstart'⟩ :=
        ih before middle (by omega)
      refine ⟨start, earlier, past ++ middle :: between, ?_, hkey'.trans hkey, hplace,
        hstart'.trans hstart⟩
      rw [hsplit, hbefore]
      simp

theorem map_time_arrivalsOf (key : String) (history : List Check) :
    (arrivalsOf key history).map Arrival.time =
      (history.filter (·.key = key)).map Check.now := by
  induction history with
  | nil => rfl
  | cons call history ih =>
      rw [arrivalsOf] at ih ⊢
      by_cases hkey : call.key = key
      · simp [hkey, ih]
      · simp [hkey, ih]

/-- The window of a check has begun, when time does not run backwards. -/
theorem placeOf_start_le {history : List Check} {call : Check}
    (horder : ((history ++ [call]).map Check.now).Pairwise (· ≤ ·)) :
    (placeOf history call).start ≤ call.now := by
  have hsorted : ((arrivalsOf call.key (history ++ [call])).map Arrival.time).Pairwise
      (· ≤ ·) := by
    rw [map_time_arrivalsOf]
    exact horder.sublist (List.filter_sublist.map _)
  have hbegan := visits_start_le hsorted _ (placeOf_mem history call [])
  rwa [placeOf, Visit.next_time] at hbegan

/-! ## The in-memory limiter -/

/-- Once a check of the key is refused, every later check of the key is refused until the
window that is recorded for the key has ended. -/
def RefusalsStand (calls : List Check) (key : String) : Prop :=
  ∀ before call between later rest, calls = before ++ call :: between ++ later :: rest →
    call.key = key → later.key = key → (step (after before) call).1.allowed = false →
    ∀ start used, (after (before ++ [call])).lookup key = some (start, used) →
      later.now < start + call.window →
      (step (after (before ++ call :: between)) later).1.allowed = false

/-- What is recorded for the key of a check is the place of the check. -/
theorem lookup_after_snoc (before : List Check) (call : Check) :
    (after (before ++ [call])).lookup call.key = some (slotOf (placeOf before call)) := by
  rw [lookup_after, arrivalsOf_snoc_self, visits_snoc, List.getLast?_concat]
  rfl

theorem allowed_eq (history : List Check) (call : Check) :
    (step (after history) call).1.allowed =
      decide ((placeOf history call).ordinal % 2 ^ 32 ≤ call.limit.toNat) := by
  rw [reply_eq]
  show decide (UInt32.ofNat _ ≤ call.limit) = _
  rw [decide_eq_decide, UInt32.le_iff_toNat_le, UInt32.toNat_ofNat']

section OneBucket

variable {calls : List Check} {key : String} {limit : UInt32} {window : Duration}
variable (horder : (calls.map Check.now).Pairwise (· ≤ ·))
variable (hfixed : ∀ call ∈ calls, call.key = key → call.limit = limit ∧ call.window = window)

include horder hfixed

/-- Until the window of a check ends, the later checks of its key are in that window. -/
theorem same_window_of_lt {before between rest : List Check} {call later : Check}
    (hsplit : calls = before ++ call :: between ++ later :: rest) (hcall : call.key = key)
    (hlater : later.key = key)
    (hwithin : later.now < (placeOf before call).start + window) :
    (placeOf before call).ordinal < (placeOf (before ++ call :: between) later).ordinal := by
  have hsub : (before ++ call :: between ++ [later]).Sublist calls := by
    rw [hsplit]
    exact (List.singleton_sublist.mpr List.mem_cons_self).append_left _
  have hnow : ((before ++ call :: between ++ [later]).map Check.now).Pairwise (· ≤ ·) :=
    horder.sublist (hsub.map _)
  have harrivals := arrivalsOf_eq_arrivalsAt fun other hother hkey =>
    (hfixed other (hsub.subset hother) hkey).2
  have hfollows : Visit.Follows window (placeOf before call)
      (placeOf (before ++ call :: between) later) := by
    apply placeOf_related before between (hlater.trans hcall.symm)
    rw [hlater, harrivals]
    exact pairwise_follows_visits (hnow.sublist (List.filter_sublist.map _))
  have hprecedes := placeOf_precedes before between (hlater.trans hcall.symm)
  have hbegan := placeOf_start_le hnow
  rcases hprecedes with hnewer | ⟨-, hordinal⟩
  · exact absurd (Nat.le_trans (hfollows.ended hnewer) hbegan) (Nat.not_le.mpr hwithin)
  · exact hordinal

omit horder in
/-- When a window has had `2 ^ 32` checks, the last of them is let through although earlier
ones were refused. -/
theorem not_refusalsStand (hlimit : limit.toNat < 2 ^ 32 - 1) {visit : Visit}
    (hvisit : visit ∈ visits (arrivalsOf key calls)) (hmany : 2 ^ 32 ≤ visit.ordinal) :
    ¬ RefusalsStand calls key := by
  intro hstand
  -- The check that takes the counter to zero.
  obtain ⟨history, later, rest, hcalls, hlater, hwraps⟩ : ∃ history later rest,
      calls = history ++ later :: rest ∧ later.key = key ∧
        (placeOf history later).ordinal = 2 ^ 32 := by
    obtain ⟨history, last, rest, hcalls, hlast, hplace⟩ := exists_check_of_visit hvisit
    rw [← hplace] at hmany
    rcases Nat.eq_or_lt_of_le hmany with hexact | hbeyond
    · exact ⟨history, last, rest, hcalls, hlast, hexact.symm⟩
    · obtain ⟨gap, hgap⟩ := Nat.exists_eq_add_of_lt hbeyond
      obtain ⟨before, later, between, hhistory, hkey, hordinal, -⟩ :=
        exists_check_of_ordinal (by decide) history last hgap
      exact ⟨before, later, between ++ last :: rest, by rw [hcalls, hhistory]; simp,
        hkey.trans hlast, hordinal⟩
  -- The first check of the same window that was refused.
  obtain ⟨gap, hgap⟩ : ∃ gap, 2 ^ 32 = limit.toNat + 1 + gap + 1 :=
    ⟨2 ^ 32 - limit.toNat - 2, by omega⟩
  obtain ⟨before, call, between, rfl, hkey, hordinal, hstart⟩ :=
    exists_check_of_ordinal (Nat.succ_pos _) history later (hwraps.trans hgap)
  rw [hlater] at hkey
  obtain ⟨hcallLimit, hcallWindow⟩ := hfixed call (by rw [hcalls]; simp) hkey
  obtain ⟨hlaterLimit, hlaterWindow⟩ := hfixed later (by rw [hcalls]; simp) hlater
  have hrefused : (step (after before) call).1.allowed = false := by
    rw [allowed_eq, hordinal, hcallLimit, decide_eq_false_iff_not]
    omega
  have hwithin := (exists_check_before _ later (by rw [hwraps]; decide)).1
  rw [← hstart, hlaterWindow, ← hcallWindow] at hwithin
  have hrecorded := lookup_after_snoc before call
  rw [hkey] at hrecorded
  have hstays := hstand before call between later rest hcalls hkey hlater hrefused _ _
    hrecorded hwithin
  rw [allowed_eq, hwraps, decide_eq_false_iff_not] at hstays
  exact hstays (Nat.zero_le _)

/-- **A refusal stands until the window ends, exactly when the counter does not come round.** -/
theorem refusalsStand_iff : RefusalsStand calls key ↔
    limit.toNat = 2 ^ 32 - 1 ∨ ∀ visit ∈ visits (arrivalsOf key calls),
      visit.ordinal < 2 ^ 32 := by
  constructor
  · intro hstand
    by_contra hcomesRound
    push Not at hcomesRound
    obtain ⟨hlimit, visit, hvisit, hmany⟩ := hcomesRound
    have hrange := UInt32.toNat_lt limit
    exact not_refusalsStand hfixed (by omega) hvisit hmany hstand
  · intro hcondition before call between later rest hcalls hcall hlater hrefused start used
      hrecorded hwithin
    obtain ⟨hcallLimit, hcallWindow⟩ := hfixed call (by rw [hcalls]; simp) hcall
    obtain ⟨hlaterLimit, -⟩ := hfixed later (by rw [hcalls]; simp) hlater
    rw [allowed_eq, hcallLimit, decide_eq_false_iff_not] at hrefused
    rw [allowed_eq, hlaterLimit, decide_eq_false_iff_not]
    rcases hcondition with hunlimited | hfew
    · -- Nothing is refused.
      have hrange := Nat.mod_lt (placeOf before call).ordinal (by decide : 0 < 2 ^ 32)
      omega
    · have hplaces : ∀ history (other : Check) rest, calls = history ++ other :: rest →
          other.key = key → (placeOf history other).ordinal % 2 ^ 32 =
            (placeOf history other).ordinal := by
        intro history other rest hsplit hkey
        have hmem := placeOf_mem history other rest
        rw [← hsplit, hkey] at hmem
        exact Nat.mod_eq_of_lt (hfew _ hmem)
      rw [hplaces before call (between ++ later :: rest) (by rw [hcalls]; simp) hcall] at hrefused
      rw [hplaces _ later rest hcalls hlater]
      have hstart : start = (placeOf before call).start := by
        rw [← hcall, lookup_after_snoc] at hrecorded
        exact (congrArg Prod.fst (Option.some.inj hrecorded)).symm
      rw [hstart, hcallWindow] at hwithin
      have hbeyond := same_window_of_lt horder hfixed hcalls hcall hlater hwithin
      omega

end OneBucket

/-- Checks of one key at one instant, with a limit of one and a window of a second. -/
def burstOf (n : Nat) : List Check := List.replicate n ⟨"a", 1, 1000000000, 0⟩

theorem burstOf_forgets {n : Nat} (hmany : 2 ^ 32 ≤ n) : ¬ RefusalsStand (burstOf n) "a" := by
  obtain ⟨m, rfl⟩ : ∃ m, n = m + 1 := ⟨n - 1, by omega⟩
  have harrivals : arrivalsOf "a" (burstOf m) = List.replicate m ⟨0, 1000000000⟩ := by
    simp [arrivalsOf, burstOf]
  have hplace : placeOf (burstOf m) ⟨"a", 1, 1000000000, 0⟩ = ⟨0, 0, 0, m + 1⟩ := by
    rw [placeOf, harrivals]
    exact Visit.next_replicate 0 (by decide) m
  have hvisit := placeOf_mem (burstOf m) ⟨"a", 1, 1000000000, 0⟩ []
  rw [hplace] at hvisit
  have hsplit : burstOf m ++ [⟨"a", 1, 1000000000, 0⟩] = burstOf (m + 1) :=
    List.replicate_succ'.symm
  rw [hsplit] at hvisit
  have hfixed : ∀ call ∈ burstOf (m + 1), call.key = "a" →
      call.limit = 1 ∧ call.window = 1000000000 := by
    intro call hcall _
    rw [List.eq_of_mem_replicate hcall]
    exact ⟨rfl, rfl⟩
  exact not_refusalsStand hfixed (by decide) hvisit hmany

end InMemoryLimiter

/-! ## The counter that Redis returns -/

section RedisCount

variable {σ : Type} {conn : RedisCommands (StateM σ)} {key : String} {store : σ} {count : Int}

/-- Once `INCR` has answered, the decision is on its count, whatever the other commands do. -/
theorem RedisLimiter.check_eq_decision
    (hincr : (conn.incr ("gw:rl:" ++ key) store).1 = some count) (limit : UInt32)
    (window : Duration) :
    ∃ reset, (RedisLimiter.check conn key limit window store).1 =
      decision limit (UInt32.ofNat (max count 0).toNat) reset := by
  have hreply : conn.incr ("gw:rl:" ++ key) store =
      (some count, (conn.incr ("gw:rl:" ++ key) store).2) := Prod.ext hincr rfl
  unfold RedisLimiter.check
  simp only [bind, StateT.bind]
  rw [hreply]
  simp only
  by_cases hfirst : count = 1
  · rw [if_pos hfirst]
    exact ⟨_, rfl⟩
  · rw [if_neg hfirst]
    exact ⟨_, rfl⟩

/-- The count decides by its low 32 bits. -/
theorem RedisLimiter.check_allowed
    (hincr : (conn.incr ("gw:rl:" ++ key) store).1 = some count) (limit : UInt32)
    (window : Duration) :
    (RedisLimiter.check conn key limit window store).1.allowed =
      decide ((max count 0).toNat % 2 ^ 32 ≤ limit.toNat) := by
  obtain ⟨reset, hdecision⟩ := RedisLimiter.check_eq_decision hincr limit window
  rw [hdecision]
  show decide (UInt32.ofNat _ ≤ limit) = _
  rw [decide_eq_decide, UInt32.le_iff_toNat_le, UInt32.toNat_ofNat']

theorem RedisLimiter.allowed_eq_count_le_iff
    (hincr : (conn.incr ("gw:rl:" ++ key) store).1 = some count) (limit : UInt32)
    (window : Duration) :
    (RedisLimiter.check conn key limit window store).1.allowed =
        decide (count ≤ limit.toNat) ↔
      count < 2 ^ 32 ∨ (limit.toNat : Int) < count % 2 ^ 32 := by
  have hrange := UInt32.toNat_lt limit
  rw [RedisLimiter.check_allowed hincr, decide_eq_decide]
  omega

end RedisCount

open InMemoryLimiter in
/-- **When refusal is permanent.**  In every run in order of time in which a key has one
limit and one window, the refusals of the in-memory limiter stand until the window ends if
and only if the limit is the largest one, so that nothing is refused, or no window of the
key has `2 ^ 32` checks.  Under the same limit the Redis limiter lets exactly the counts up
to the limit through if and only if the count fits 32 bits or its low 32 bits are beyond
the limit as well. -/
theorem refusal_permanent_iff {calls : List Check} {key : String} {limit : UInt32}
    {window : Duration} (horder : (calls.map Check.now).Pairwise (· ≤ ·))
    (hfixed : ∀ call ∈ calls, call.key = key → call.limit = limit ∧ call.window = window)
    {σ : Type} {conn : RedisCommands (StateM σ)} {store : σ} {count : Int}
    (hincr : (conn.incr ("gw:rl:" ++ key) store).1 = some count) :
    (RefusalsStand calls key ↔
      limit.toNat = 2 ^ 32 - 1 ∨
        ∀ visit ∈ visits (arrivalsOf key calls), visit.ordinal < 2 ^ 32) ∧
    ((RedisLimiter.check conn key limit window store).1.allowed =
        decide (count ≤ limit.toNat) ↔
      count < 2 ^ 32 ∨ (limit.toNat : Int) < count % 2 ^ 32) :=
  ⟨refusalsStand_iff horder hfixed, RedisLimiter.allowed_eq_count_le_iff hincr limit window⟩

open InMemoryLimiter in
theorem refusal_permanent_twoKey :
    RefusalsStand twoKeyRun "a" ∧
      (RedisLimiter.check (commandsAt 0) "a" 1 10 ∅).1.allowed = decide ((1 : Int) ≤ 1) := by
  have hfixed : ∀ call ∈ twoKeyRun, call.key = "a" → call.limit = 1 ∧ call.window = 10 := by
    decide
  have hincr : ((commandsAt 0).incr ("gw:rl:" ++ "a") ∅).1 = some 1 := rfl
  obtain ⟨hmemory, hredis⟩ := refusal_permanent_iff (by decide) hfixed hincr
  refine ⟨hmemory.mpr (Or.inr fun visit hvisit => ?_), hredis.mpr (Or.inl (by decide))⟩
  have hplace := visits_ordinal_le _ visit hvisit
  have hlength : (arrivalsOf "a" twoKeyRun).length ≤ 4 := List.length_filterMap_le _ _
  omega

/-- A counter one below `2 ^ 32`. -/
def fullCounter : RedisStore := AList.insert "gw:rl:a" ⟨2 ^ 32 - 1, none⟩ ∅

/-- The check after which the counter is `2 ^ 32` is let through under a limit of one, by
both limiters. -/
theorem wrapped_counter_allows :
    ¬ InMemoryLimiter.RefusalsStand (InMemoryLimiter.burstOf (2 ^ 32)) "a" ∧
      ((commandsAt 0).incr ("gw:rl:" ++ "a") fullCounter).1 = some (2 ^ 32) ∧
      (RedisLimiter.check (commandsAt 0) "a" 1 1000000000 fullCounter).1.allowed = true ∧
      ¬ (2 ^ 32 : Int) ≤ (1 : UInt32).toNat := by
  have hincr : ((commandsAt 0).incr ("gw:rl:" ++ "a") fullCounter).1 = some (2 ^ 32) := by
    decide +kernel
  refine ⟨InMemoryLimiter.burstOf_forgets (Nat.le_refl _), hincr, ?_, by decide⟩
  rw [RedisLimiter.check_allowed hincr]
  decide

end Gateway
end ApiGateway
