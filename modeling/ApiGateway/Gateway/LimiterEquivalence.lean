import ApiGateway.Core.Config
import ApiGateway.Gateway.Redis
import ApiGateway.Gateway.WindowLaw

/-!
# One limiter for the other

The in-memory limiter keeps the beginning of a window and resets its counter lazily; the
Redis limiter lets the key expire.  Here the server has a clock and drops a key exactly
when its deadline has come, every command of a check happens at the time of the check, and
no command fails.

Both limiters then answer by the place of a check in its window.  They differ in how long
the window is: the Redis limiter makes it at least one second long, and sends its length
as a signed number, so that a window of `2 ^ 63` seconds or more ends at once.
-/

namespace ApiGateway
namespace Gateway

open Library Core

/-! ## The server with a clock -/

/-- A key whose deadline has come is dropped before a command looks at it. -/
def Redis.dropExpired (store : RedisStore) (now : Instant) (key : String) : RedisStore :=
  match store.lookup key with
  | some ⟨_, some deadline⟩ => if deadline ≤ now then store.erase key else store
  | _ => store

/-- The commands at one time of the server. -/
def commandsAt (now : Instant) : RedisCommands (StateM RedisStore) where
  incr key := fun store =>
    let counted := Redis.incr (Redis.dropExpired store now key) key
    (some counted.1, counted.2)
  expire key secs := fun store =>
    (true, Redis.expire (Redis.dropExpired store now key) now key secs)
  ttl key := fun store =>
    let store := Redis.dropExpired store now key
    (some (Redis.ttl store now key), store)

/-- A check of a bucket at a time. -/
structure TimedCheck where
  key : String
  now : Instant
  deriving DecidableEq, Repr

/-- One check of the Redis limiter. -/
def redisStep (rl : RateLimitConfig) (store : RedisStore) (call : TimedCheck) :
    RateDecision × RedisStore :=
  RedisLimiter.check (commandsAt call.now) call.key rl.limit
    (Duration.fromSecs rl.windowSecs.toNat) store

/-- One check of the in-memory limiter. -/
def memoryStep (rl : RateLimitConfig) (windows : Windows) (call : TimedCheck) :
    RateDecision × Windows :=
  InMemoryLimiter.check windows call.key rl.limit (Duration.fromSecs rl.windowSecs.toNat) call.now

/-- The part of a decision that the two are compared by. -/
def outcome (decision : RateDecision) : Bool × UInt32 := (decision.allowed, decision.remaining)

theorem outcome_decision (limit used : UInt32) (reset reset' : UInt64) :
    outcome (decision limit used reset) = outcome (decision limit used reset') := rfl

/-- For every sequence of checks the two limiters answer alike. -/
def Interchangeable (rl : RateLimitConfig) : Prop :=
  ∀ calls : List TimedCheck, (calls.map TimedCheck.now).Pairwise (· ≤ ·) →
    (replies (redisStep rl) ∅ calls).map outcome = (replies (memoryStep rl) ∅ calls).map outcome

namespace Redis

theorem dropExpired_ne (store : RedisStore) (now : Instant) {key other : String}
    (h : other ≠ key) : (dropExpired store now key).lookup other = store.lookup other := by
  unfold dropExpired
  split
  · split
    · exact AList.lookup_erase_ne h
    · rfl
  · rfl

theorem dropExpired_of_live {store : RedisStore} {now : Instant} {key : String} {count : Int}
    {deadline : Instant} (h : store.lookup key = some ⟨count, some deadline⟩)
    (hlive : now < deadline) : dropExpired store now key = store := by
  unfold dropExpired
  rw [h]
  exact if_neg (Nat.not_le.mpr hlive)

theorem dropExpired_of_over {store : RedisStore} {now : Instant} {key : String} {count : Int}
    {deadline : Instant} (h : store.lookup key = some ⟨count, some deadline⟩)
    (hover : deadline ≤ now) : (dropExpired store now key).lookup key = none := by
  unfold dropExpired
  rw [h]
  simp only [if_pos hover]
  exact AList.lookup_erase _ _

theorem dropExpired_of_none {store : RedisStore} {now : Instant} {key : String}
    (h : store.lookup key = none) : dropExpired store now key = store := by
  unfold dropExpired
  rw [h]

theorem dropExpired_of_noDeadline {store : RedisStore} {now : Instant} {key : String}
    {count : Int} (h : store.lookup key = some ⟨count, none⟩) :
    dropExpired store now key = store := by
  unfold dropExpired
  rw [h]

end Redis

/-! ## One check -/

/-- The seconds that are sent with `EXPIRE`. -/
def expirySecs (rl : RateLimitConfig) : Int := Int.bmod (max rl.windowSecs.toNat 1) (2 ^ 64)

theorem expirySecs_eq (rl : RateLimitConfig) :
    Int.bmod (max ((Duration.fromSecs rl.windowSecs.toNat : Int) / 1000000000) 1) (2 ^ 64) =
      expirySecs rl := by
  unfold expirySecs Duration.fromSecs
  congr 1
  omega

/-- The key after the increment, and after the expiry has been seen to. -/
def afterExpire (rl : RateLimitConfig) (now : Instant) (key : String) (count : Int)
    (store : RedisStore) : RedisStore :=
  if count = 1 then Redis.expire (Redis.dropExpired store now key) now key (expirySecs rl)
  else store

theorem redisStep_eq (rl : RateLimitConfig) (store : RedisStore) (call : TimedCheck) :
    let key := "gw:rl:" ++ call.key
    let counted := Redis.incr (Redis.dropExpired store call.now key) key
    let left := Redis.dropExpired (afterExpire rl call.now key counted.1 counted.2) call.now key
    redisStep rl store call =
      (decision rl.limit (UInt32.ofNat (max counted.1 0).toNat)
          (UInt64.ofNat (max (Redis.ttl left call.now key) 0).toNat), left) := by
  intro key counted left
  unfold redisStep RedisLimiter.check
  rw [expirySecs_eq]
  show (if counted.1 = 1 then _ else _ : StateM RedisStore RateDecision) counted.2 = _
  by_cases hfirst : counted.1 = 1
  · have hleft : left = Redis.dropExpired (Redis.expire (Redis.dropExpired counted.2 call.now key)
        call.now key (expirySecs rl)) call.now key := by
      show Redis.dropExpired (afterExpire _ _ _ _ _) _ _ = _
      rw [afterExpire, if_pos hfirst]
    rw [if_pos hfirst, hleft]
    rfl
  · have hleft : left = Redis.dropExpired counted.2 call.now key := by
      show Redis.dropExpired (afterExpire _ _ _ _ _) _ _ = _
      rw [afterExpire, if_neg hfirst]
    rw [if_neg hfirst, hleft]
    rfl

/-- A check leaves the keys of other buckets alone. -/
theorem lookup_redisStep_ne (rl : RateLimitConfig) (store : RedisStore) (call : TimedCheck)
    {key : String} (h : key ≠ "gw:rl:" ++ call.key) :
    (redisStep rl store call).2.lookup key = store.lookup key := by
  rw [redisStep_eq]
  show (Redis.dropExpired (afterExpire _ _ _ _ _) _ _).lookup key = _
  rw [Redis.dropExpired_ne _ _ h]
  unfold afterExpire
  split
  · rw [Redis.lookup_expire_ne _ _ _ h, Redis.dropExpired_ne _ _ h, Redis.lookup_incr_ne _ h,
      Redis.dropExpired_ne _ _ h]
  · rw [Redis.lookup_incr_ne _ h, Redis.dropExpired_ne _ _ h]

theorem now_lt_deadline (now : Instant) {secs : Int} (h : 0 < secs) :
    now < now + Duration.fromSecs secs.toNat := by
  have hpos : 0 < Duration.fromSecs secs.toNat := Nat.mul_pos (by omega) (by decide)
  exact Nat.lt_add_of_pos_right hpos

/-- The first check of a key that is not there.  An expiry that is not positive removes the
key at once. -/
theorem redisStep_of_fresh (rl : RateLimitConfig) {store : RedisStore} {call : TimedCheck}
    (h : (Redis.dropExpired store call.now ("gw:rl:" ++ call.key)).lookup ("gw:rl:" ++ call.key) =
      none) :
    (∃ reset, (redisStep rl store call).1 = decision rl.limit (UInt32.ofNat 1) reset) ∧
      (redisStep rl store call).2.lookup ("gw:rl:" ++ call.key) =
        if expirySecs rl ≤ 0 then none
        else some ⟨1, some (call.now + Duration.fromSecs (expirySecs rl).toNat)⟩ := by
  rw [redisStep_eq]
  generalize "gw:rl:" ++ call.key = key at h ⊢
  generalize Redis.dropExpired store call.now key = live at h
  have hcount : (Redis.incr live key).1 = 1 := by
    simp [Redis.incr, h]
  have hcounted : (Redis.incr live key).2.lookup key = some ⟨1, none⟩ := by
    rw [Redis.lookup_incr_self, h, hcount]
    rfl
  have hexpire : afterExpire rl call.now key (Redis.incr live key).1 (Redis.incr live key).2 =
      Redis.expire (Redis.incr live key).2 call.now key (expirySecs rl) := by
    rw [afterExpire, if_pos hcount, Redis.dropExpired_of_noDeadline hcounted]
  refine ⟨⟨_, by rw [hcount]; rfl⟩, ?_⟩
  simp only [hexpire]
  by_cases hsecs : expirySecs rl ≤ 0
  · have hgone : (Redis.expire (Redis.incr live key).2 call.now key (expirySecs rl)).lookup key =
        none := by
      unfold Redis.expire
      rw [hcounted]
      simp only [if_pos hsecs]
      exact AList.lookup_erase _ _
    rw [if_pos hsecs, Redis.dropExpired_of_none hgone, hgone]
  · have hset : (Redis.expire (Redis.incr live key).2 call.now key (expirySecs rl)).lookup key =
        some ⟨1, some (call.now + Duration.fromSecs (expirySecs rl).toNat)⟩ := by
      unfold Redis.expire
      rw [hcounted]
      simp only [if_neg hsecs]
      exact AList.lookup_insert _
    rw [if_neg hsecs, Redis.dropExpired_of_live hset (now_lt_deadline _ (Int.not_le.mp hsecs)), hset]

/-- A later check of a key before its deadline. -/
theorem redisStep_of_live {rl : RateLimitConfig} {store : RedisStore} {call : TimedCheck}
    {count : Nat} {deadline : Instant} (hcount : 0 < count)
    (h : store.lookup ("gw:rl:" ++ call.key) = some ⟨count, some deadline⟩)
    (hlive : call.now < deadline) :
    (∃ reset, (redisStep rl store call).1 = decision rl.limit (UInt32.ofNat (count + 1)) reset) ∧
      (redisStep rl store call).2.lookup ("gw:rl:" ++ call.key) =
        some ⟨(count + 1 : Nat), some deadline⟩ := by
  rw [redisStep_eq]
  generalize "gw:rl:" ++ call.key = key at h ⊢
  rw [Redis.dropExpired_of_live h hlive]
  have hnext : (Redis.incr store key).1 = (count + 1 : Nat) := by
    simp [Redis.incr, h]
  have hcounted : (Redis.incr store key).2.lookup key =
      some ⟨(count + 1 : Nat), some deadline⟩ := by
    rw [Redis.lookup_incr_self, h, hnext]
    rfl
  have hkeep : afterExpire rl call.now key (Redis.incr store key).1 (Redis.incr store key).2 =
      (Redis.incr store key).2 := by
    rw [afterExpire, if_neg (by omega)]
  simp only [hkeep]
  rw [Redis.dropExpired_of_live hcounted hlive]
  have hnat : (max (Redis.incr store key).1 0).toNat = count + 1 := by omega
  exact ⟨⟨_, by rw [hnat]⟩, hcounted⟩

/-! ## Runs -/

/-- How long the window of the Redis limiter is, when its length is sent as it is. -/
def redisWindow (rl : RateLimitConfig) : Duration := Duration.fromSecs (expirySecs rl).toNat

/-- The checks, with the limit of the configuration and windows of the given length. -/
def withWindow (rl : RateLimitConfig) (window : Duration) (call : TimedCheck) :
    InMemoryLimiter.Check :=
  ⟨call.key, rl.limit, window, call.now⟩

/-- The last check of a bucket before the next one. -/
def lastVisit (rl : RateLimitConfig) (window : Duration) (history : List TimedCheck)
    (key : String) : Option Visit :=
  (visits (InMemoryLimiter.arrivalsOf key (history.map (withWindow rl window)))).getLast?

/-- What the server holds after a visit. -/
def counterOf (window : Duration) (visit : Visit) : RedisCounter :=
  ⟨visit.ordinal, some (visit.start + window)⟩

theorem redisWindow_pos {rl : RateLimitConfig} (h : 0 < expirySecs rl) : 0 < redisWindow rl :=
  Nat.mul_pos (by omega) (by decide)

/-- A check of a key that holds the last visit makes the next visit. -/
theorem redisStep_visit {rl : RateLimitConfig} (hsecs : 0 < expirySecs rl) {store : RedisStore}
    {call : TimedCheck} {last : Option Visit}
    (hlast : store.lookup ("gw:rl:" ++ call.key) = last.map (counterOf (redisWindow rl)))
    (hpos : ∀ visit, last = some visit → 0 < visit.ordinal) :
    (∃ reset, (redisStep rl store call).1 = decision rl.limit
        (UInt32.ofNat (Visit.next last ⟨call.now, redisWindow rl⟩).ordinal) reset) ∧
      (redisStep rl store call).2.lookup ("gw:rl:" ++ call.key) =
        some (counterOf (redisWindow rl) (Visit.next last ⟨call.now, redisWindow rl⟩)) := by
  -- A key that is not there any more, or never was, begins a window.
  have hfresh : (Redis.dropExpired store call.now ("gw:rl:" ++ call.key)).lookup
      ("gw:rl:" ++ call.key) = none →
      (∃ reset, (redisStep rl store call).1 = decision rl.limit (UInt32.ofNat 1) reset) ∧
        (redisStep rl store call).2.lookup ("gw:rl:" ++ call.key) =
          some ⟨1, some (call.now + redisWindow rl)⟩ := by
    intro hnone
    obtain ⟨hreply, hlookup⟩ := redisStep_of_fresh rl hnone
    rw [if_neg (Int.not_le.mpr hsecs)] at hlookup
    exact ⟨hreply, hlookup⟩
  cases last with
  | none =>
      apply hfresh
      rw [Redis.dropExpired_of_none hlast]
      exact hlast
  | some last =>
      have hcounter : store.lookup ("gw:rl:" ++ call.key) =
          some ⟨last.ordinal, some (last.start + redisWindow rl)⟩ := hlast
      rcases Visit.next_some_cases last ⟨call.now, redisWindow rl⟩ with ⟨hover, hnext⟩ |
        ⟨hwithin, hnext⟩
      · have hended : last.start + redisWindow rl ≤ call.now := by
          have hstart : last.start ≤ call.now :=
            Nat.le_of_lt (Nat.lt_of_sub_pos (Nat.lt_of_lt_of_le (redisWindow_pos hsecs) hover))
          rw [Nat.add_comm]
          exact Nat.add_le_of_le_sub hstart hover
        rw [hnext]
        exact hfresh (Redis.dropExpired_of_over hcounter hended)
      · have hlive : call.now < last.start + redisWindow rl := by
          apply Nat.lt_of_not_le
          intro hover
          exact absurd (Nat.le_sub_of_add_le' hover) (Nat.not_le.mpr hwithin)
        rw [hnext]
        exact redisStep_of_live (hpos last rfl) hcounter hlive

section Runs

variable {rl : RateLimitConfig}

theorem arrivalsOf_withWindow_snoc (window : Duration) (history : List TimedCheck)
    (call : TimedCheck) (key : String) :
    InMemoryLimiter.arrivalsOf key ((history ++ [call]).map (withWindow rl window)) =
      InMemoryLimiter.arrivalsOf key (history.map (withWindow rl window)) ++
        if call.key = key then [⟨call.now, window⟩] else [] := by
  by_cases hkey : call.key = key
  · simp [InMemoryLimiter.arrivalsOf, withWindow, hkey]
  · simp [InMemoryLimiter.arrivalsOf, withWindow, hkey]

theorem lastVisit_snoc_self (window : Duration) (history : List TimedCheck) (call : TimedCheck) :
    lastVisit rl window (history ++ [call]) call.key =
      some (Visit.next (lastVisit rl window history call.key) ⟨call.now, window⟩) := by
  rw [lastVisit, arrivalsOf_withWindow_snoc, if_pos rfl, visits_snoc, List.getLast?_concat]
  rfl

theorem lastVisit_snoc_ne (window : Duration) (history : List TimedCheck) {call : TimedCheck}
    {key : String} (h : call.key ≠ key) :
    lastVisit rl window (history ++ [call]) key = lastVisit rl window history key := by
  rw [lastVisit, arrivalsOf_withWindow_snoc, if_neg h, List.append_nil]
  rfl

theorem lastVisit_ordinal_pos {window : Duration} {history : List TimedCheck} {key : String} :
    ∀ visit, lastVisit rl window history key = some visit → 0 < visit.ordinal :=
  fun visit h => visits_ordinal_pos _ visit (List.mem_of_getLast? h)

/-- **What the server holds.**  For every bucket that has been checked, the number of checks
in its current window, and the end of that window. -/
theorem lookup_redisRun (hsecs : 0 < expirySecs rl) (history : List TimedCheck) (key : String) :
    (run (redisStep rl) ∅ history).lookup ("gw:rl:" ++ key) =
      (lastVisit rl (redisWindow rl) history key).map (counterOf (redisWindow rl)) := by
  induction history using List.reverseRecOn generalizing key with
  | nil => rfl
  | append_singleton history call ih =>
      have hrun : run (redisStep rl) ∅ (history ++ [call]) =
          (redisStep rl (run (redisStep rl) ∅ history) call).2 := run_append _ _ _ _
      rw [hrun]
      by_cases hkey : call.key = key
      · subst hkey
        rw [(redisStep_visit hsecs (ih call.key) lastVisit_ordinal_pos).2, lastVisit_snoc_self]
        rfl
      · have hne : "gw:rl:" ++ key ≠ "gw:rl:" ++ call.key := by
          intro h
          exact hkey (LimitRequest.redisKey_inj h).symm
        rw [lookup_redisStep_ne rl _ call hne, ih key, lastVisit_snoc_ne _ _ hkey]

/-- The Redis limiter decides by the place of a check in windows of its own length. -/
theorem outcome_redisStep (hsecs : 0 < expirySecs rl) (history : List TimedCheck)
    (call : TimedCheck) :
    outcome (redisStep rl (run (redisStep rl) ∅ history) call).1 =
      outcome (decision rl.limit (UInt32.ofNat (Visit.next
        (lastVisit rl (redisWindow rl) history call.key) ⟨call.now, redisWindow rl⟩).ordinal) 0) := by
  obtain ⟨reset, hreply⟩ := (redisStep_visit hsecs (lookup_redisRun hsecs history call.key)
    lastVisit_ordinal_pos).1
  rw [hreply]
  exact outcome_decision ..

/-- An expiry that is not positive leaves no key: every check is the first one. -/
theorem outcome_redisStep_of_nonpos (hsecs : expirySecs rl ≤ 0) (history : List TimedCheck)
    (call : TimedCheck) :
    outcome (redisStep rl (run (redisStep rl) ∅ history) call).1 =
      outcome (decision rl.limit (UInt32.ofNat 1) 0) := by
  have hgone : ∀ key, (run (redisStep rl) ∅ history).lookup ("gw:rl:" ++ key) = none := by
    induction history using List.reverseRecOn with
    | nil => exact fun _ => rfl
    | append_singleton history earlier ih =>
        intro key
        have hrun : run (redisStep rl) ∅ (history ++ [earlier]) =
            (redisStep rl (run (redisStep rl) ∅ history) earlier).2 := run_append _ _ _ _
        rw [hrun]
        by_cases hkey : "gw:rl:" ++ key = "gw:rl:" ++ earlier.key
        · have hnone := ih earlier.key
          rw [hkey, (redisStep_of_fresh rl (by rw [Redis.dropExpired_of_none hnone]; exact hnone)).2,
            if_pos hsecs]
        · rw [lookup_redisStep_ne rl _ earlier hkey]
          exact ih key
  have hnone := hgone call.key
  obtain ⟨reset, hreply⟩ := (redisStep_of_fresh rl
    (by rw [Redis.dropExpired_of_none hnone]; exact hnone)).1
  rw [hreply]
  exact outcome_decision ..

/-- The in-memory limiter decides by the place of a check in windows of the configured
length. -/
theorem outcome_memoryStep (history : List TimedCheck) (call : TimedCheck) :
    outcome (memoryStep rl (run (memoryStep rl) ∅ history) call).1 =
      outcome (decision rl.limit (UInt32.ofNat (Visit.next
        (lastVisit rl (Duration.fromSecs rl.windowSecs.toNat) history call.key)
        ⟨call.now, Duration.fromSecs rl.windowSecs.toNat⟩).ordinal) 0) := by
  have hstep : memoryStep rl = fun windows call => InMemoryLimiter.step windows
      (withWindow rl (Duration.fromSecs rl.windowSecs.toNat) call) := rfl
  generalize Duration.fromSecs rl.windowSecs.toNat = window at hstep ⊢
  have hrun : run (memoryStep rl) ∅ history =
      InMemoryLimiter.after (history.map (withWindow rl window)) := by
    rw [hstep, InMemoryLimiter.after, run, run, List.foldl_map]
  rw [hrun, hstep]
  simp only
  rw [InMemoryLimiter.reply_eq]
  exact outcome_decision ..

end Runs

/-! ## Which windows agree -/

theorem expirySecs_of_lt {rl : RateLimitConfig} (h : rl.windowSecs.toNat < 2 ^ 63) :
    expirySecs rl = max (rl.windowSecs.toNat : Int) 1 := by
  unfold expirySecs
  apply Int.bmod_eq_of_le
  · omega
  · omega

/-- The sign is lost from `2 ^ 63` on. -/
theorem expirySecs_neg {rl : RateLimitConfig} (h : 2 ^ 63 ≤ rl.windowSecs.toNat) :
    expirySecs rl < 0 := by
  have hbound : rl.windowSecs.toNat < 2 ^ 64 := rl.windowSecs.toNat_lt
  unfold expirySecs Int.bmod
  simp only
  split
  · omega
  · omega

/-- A run of checks of one bucket at one instant. -/
def burst (n : Nat) : List TimedCheck := List.replicate n ⟨"", 0⟩

/-- In a burst every check has the next place, when windows last some time. -/
theorem lastVisit_burst (rl : RateLimitConfig) {window : Duration} (hwindow : 0 < window) (n : Nat) :
    (Visit.next (lastVisit rl window (burst n) "") ⟨0, window⟩).ordinal = n + 1 := by
  have harrivals : InMemoryLimiter.arrivalsOf "" ((burst n).map (withWindow rl window)) =
      List.replicate n ⟨0, window⟩ := by
    simp [burst, InMemoryLimiter.arrivalsOf, withWindow]
  rw [lastVisit, harrivals, Visit.next_replicate 0 hwindow]

/-- The first check of a window and the one after which the counter is zero again are
decided differently, under every limit. -/
theorem outcome_one_ne_wrapped (limit : UInt32) :
    outcome (decision limit (UInt32.ofNat 1) 0) ≠
      outcome (decision limit (UInt32.ofNat (2 ^ 32 - 1 + 1)) 0) := by
  have hwrapped : UInt32.ofNat (2 ^ 32 - 1 + 1) = UInt32.ofNat 0 := by decide
  rw [hwrapped]
  intro h
  obtain ⟨hallowed, hremaining⟩ := Prod.mk.inj h
  have hone : (1 : Nat) < 2 ^ 32 := by decide
  have hzero : (0 : Nat) < 2 ^ 32 := by decide
  rw [decision_allowed hone, decision_allowed hzero] at hallowed
  have hpos : 1 ≤ limit.toNat := by simpa using hallowed
  have hnats := congrArg UInt32.toNat hremaining
  rw [decision_remaining hone, decision_remaining hzero] at hnats
  omega

/-- After every burst the last checks agree. -/
theorem Interchangeable.last {rl : RateLimitConfig} (h : Interchangeable rl) (n : Nat) :
    outcome (redisStep rl (run (redisStep rl) ∅ (burst n)) ⟨"", 0⟩).1 =
      outcome (memoryStep rl (run (memoryStep rl) ∅ (burst n)) ⟨"", 0⟩).1 := by
  have horder : ((burst n ++ [(⟨"", 0⟩ : TimedCheck)]).map TimedCheck.now).Pairwise (· ≤ ·) := by
    simp [burst, List.pairwise_append, List.pairwise_replicate]
  have hreplies := h (burst n ++ [(⟨"", 0⟩ : TimedCheck)]) horder
  rw [replies_snoc, replies_snoc, List.map_append, List.map_append] at hreplies
  -- Not by `rfl`: it would compare the two replies by running them.
  have hlasts := (List.append_inj' hreplies (by simp only [List.length_map,
    List.length_singleton])).2
  exact (List.cons.inj hlasts).1

/-- **When the limiters are interchangeable.**  They answer every sequence of timed checks
alike exactly when the window is at least one second long and shorter than `2 ^ 63`
seconds, whatever the limit is. -/
theorem interchangeable_iff (rl : RateLimitConfig) :
    Interchangeable rl ↔ 1 ≤ rl.windowSecs.toNat ∧ rl.windowSecs.toNat < 2 ^ 63 := by
  constructor
  · intro h
    have hlast := h.last (2 ^ 32 - 1)
    rw [outcome_memoryStep] at hlast
    constructor
    · -- A window of no time: the in-memory limiter begins a window with every check.
      by_contra hzero
      have hsecs : rl.windowSecs.toNat = 0 := by omega
      have hexpiry : 0 < expirySecs rl := by
        rw [expirySecs_of_lt (by omega)]
        omega
      have hnone : Duration.fromSecs 0 = 0 := rfl
      rw [outcome_redisStep hexpiry, lastVisit_burst rl (redisWindow_pos hexpiry), hsecs, hnone,
        Visit.next_ordinal_of_zero] at hlast
      exact outcome_one_ne_wrapped rl.limit hlast.symm
    · -- A window that is too long to be sent: the key is removed after every check.
      by_contra hlong
      have hexpiry := expirySecs_neg (Nat.not_lt.mp hlong)
      have hwindow : 0 < Duration.fromSecs rl.windowSecs.toNat :=
        Nat.mul_pos (by omega) (by decide)
      rw [outcome_redisStep_of_nonpos (Int.le_of_lt hexpiry), lastVisit_burst rl hwindow] at hlast
      exact outcome_one_ne_wrapped rl.limit hlast
  · rintro ⟨hpos, hshort⟩ calls -
    have hsecs : expirySecs rl = rl.windowSecs.toNat := by
      rw [expirySecs_of_lt hshort]
      omega
    have hwindow : redisWindow rl = Duration.fromSecs rl.windowSecs.toNat := by
      rw [redisWindow, hsecs, Int.toNat_natCast]
    apply map_replies_congr
    intro history call
    rw [outcome_redisStep (by omega), outcome_memoryStep, hwindow]

/-- A limit per window of no time. -/
def zeroWindow : RateLimitConfig := { limit := 1, windowSecs := 0 }

/-- The configuration is accepted, and the second of two checks at one instant is refused
by the Redis limiter and allowed by the in-memory limiter. -/
theorem zero_window_differs :
    ({ routes := [{ name := "a", upstreams := [{ url := "http://a" }]
                    rateLimit := some zeroWindow }] } : GatewayConfig).validate = .ok () ∧
      ¬ Interchangeable zeroWindow := by
  refine ⟨rfl, fun h => ?_⟩
  have hreplies := h [⟨"a", 0⟩, ⟨"a", 0⟩] (by decide)
  exact absurd hreplies (by decide +kernel)

end Gateway
end ApiGateway
