import ApiGateway.Gateway.RateLimit
import ApiGateway.Library.Interleaving

/-!
# Gateways that share one Redis

The part of Redis that the limiter uses: counter keys with an optional deadline, and three
commands, each atomic at the server.  Any number of gateway instances send commands to the
same server; since an instance keeps nothing between two checks, a run is a pool of checks,
each a thread of its own.

A command may fail, and then it has no effect.  A check may be dropped wherever it waits,
which is at each of its commands.  A key may expire at any moment: nothing in the pool says
when, so what holds of all runs holds whatever the clock of the server does.
-/

namespace ApiGateway
namespace Gateway

open Library Program

/-- A counter key: its value, and the moment it expires at, when one has been set. -/
structure RedisCounter where
  count : Int
  deadline : Option Instant
  deriving DecidableEq, Repr

abbrev RedisStore := StringMap RedisCounter

namespace Redis

/-- `INCR`.  A missing key counts as zero and gets no deadline; a deadline is kept. -/
def incr (store : RedisStore) (key : String) : Int × RedisStore :=
  let counter := (store.lookup key).getD ⟨0, none⟩
  (counter.count + 1, store.insert key { counter with count := counter.count + 1 })

/-- `EXPIRE`.  A span that is not positive has passed already, and the key is deleted; on a
missing key nothing happens. -/
def expire (store : RedisStore) (now : Instant) (key : String) (secs : Int) : RedisStore :=
  match store.lookup key with
  | none => store
  | some counter =>
      if secs ≤ 0 then store.erase key
      else store.insert key
        { counter with deadline := some (now + Duration.fromSecs secs.toNat) }

/-- `TTL`: the seconds left, rounded to the nearest; `-1` for a key without a deadline and
`-2` for a missing key. -/
def ttl (store : RedisStore) (now : Instant) (key : String) : Int :=
  match store.lookup key with
  | none => -2
  | some ⟨_, none⟩ => -1
  | some ⟨_, some deadline⟩ => ((deadline - now) / 1000000 + 500) / 1000

/-! ## One command and one key -/

/-- `INCR` returns one more than the value of the key. -/
theorem incr_fst (store : RedisStore) (key : String) :
    (incr store key).1 = ((store.lookup key).map RedisCounter.count).getD 0 + 1 := by
  unfold incr
  cases store.lookup key with
  | none => rfl
  | some counter => rfl

theorem lookup_incr_self (store : RedisStore) (key : String) :
    (incr store key).2.lookup key =
      some { (store.lookup key).getD ⟨0, none⟩ with count := (incr store key).1 } :=
  AList.lookup_insert store

theorem lookup_incr_ne (store : RedisStore) {key other : String} (h : other ≠ key) :
    (incr store key).2.lookup other = store.lookup other :=
  AList.lookup_insert_ne h

theorem lookup_expire_ne (store : RedisStore) (now : Instant) {key other : String} (secs : Int)
    (h : other ≠ key) : (expire store now key secs).lookup other = store.lookup other := by
  unfold expire
  split
  · rfl
  · split
    · exact AList.lookup_erase_ne h
    · exact AList.lookup_insert_ne h

/-- After `EXPIRE` a key has its old value and a deadline, or is gone. -/
theorem lookup_expire_self (store : RedisStore) (now : Instant) (key : String) (secs : Int) :
    (expire store now key secs).lookup key = none ∨
      ∃ counter, store.lookup key = some counter ∧ (expire store now key secs).lookup key =
        some { counter with deadline := some (now + Duration.fromSecs secs.toNat) } := by
  unfold expire
  split
  · rename_i hnone
    exact Or.inl hnone
  · rename_i counter hsome
    split
    · exact Or.inl (AList.lookup_erase key store)
    · exact Or.inr ⟨counter, hsome, AList.lookup_insert store⟩

/-- `EXPIRE` leaves the value of a key that it does not delete. -/
theorem count_expire (store : RedisStore) (now : Instant) {key other : String} (secs : Int)
    (hkept : (store.lookup other).isSome = true →
      ((expire store now key secs).lookup other).isSome = true) :
    ((expire store now key secs).lookup other).map RedisCounter.count =
      (store.lookup other).map RedisCounter.count := by
  by_cases hkey : other = key
  · subst hkey
    rcases lookup_expire_self store now other secs with hgone | ⟨counter, hbefore, hafter⟩
    · -- It is not deleted, so it was absent before.
      rw [hgone] at hkept ⊢
      cases hstore : store.lookup other with
      | none => rfl
      | some counter =>
          rw [hstore] at hkept
          cases hkept rfl
    · rw [hbefore, hafter]
      rfl
  · rw [lookup_expire_ne store now secs hkey]

end Redis

/-! ## Checks as threads -/

inductive RedisOp where
  | incr (key : String)
  | expire (key : String) (secs : Int)
  | ttl (key : String)
  deriving DecidableEq, Repr

@[reducible] def RedisOp.Res : RedisOp → Type
  | .incr _ => Option Int
  | .expire _ _ => Bool
  | .ttl _ => Option Int

@[reducible] def redisEffects : Signature := ⟨RedisOp, RedisOp.Res⟩

/-- The commands as calls on the shared server. -/
def sharedCommands : RedisCommands (Program redisEffects) where
  incr key := Program.perform (S := redisEffects) (.incr key)
  expire key secs := Program.perform (S := redisEffects) (.expire key secs)
  ttl key := Program.perform (S := redisEffects) (.ttl key)

/-- What `RedisLimiter::check` is called with. -/
structure LimitRequest where
  key : String
  limit : UInt32
  window : Duration

namespace LimitRequest

def redisKey (request : LimitRequest) : String := "gw:rl:" ++ request.key

def windowSecs (request : LimitRequest) : Int :=
  Int.bmod (max (request.window / 1000000000) 1) (2 ^ 64)

def program (request : LimitRequest) : Program redisEffects RateDecision :=
  RedisLimiter.check sharedCommands request.key request.limit request.window

/-- The decision when the counter could not be incremented. -/
def failOpen (request : LimitRequest) : RateDecision where
  allowed := true
  limit := request.limit
  remaining := request.limit
  resetSecs := UInt64.ofNat (request.windowSecs % 2 ^ 64).toNat

/-- The decision for a count. -/
def verdict (request : LimitRequest) (count : Int) (ttl : Option Int) : RateDecision :=
  decision request.limit (UInt32.ofNat (max count 0).toNat)
    (UInt64.ofNat (max (ttl.getD request.windowSecs) 0).toNat)

/-- What is left to do once the expiry has been seen to. -/
def report (request : LimitRequest) (count : Int) : Program redisEffects RateDecision :=
  .call (.ttl request.redisKey) fun ttl => .done (request.verdict count ttl)

/-- Different keys are different in Redis. -/
theorem redisKey_inj {key other : String} (h : "gw:rl:" ++ key = "gw:rl:" ++ other) :
    key = other := by
  have hlists := congrArg String.toList h
  simp only [String.toList_append] at hlists
  exact String.toList_injective (List.append_cancel_left hlists)

/-- Where a check stands: the commands it has sent, and what is left to do. -/
inductive Stage (request : LimitRequest) :
    List (Event redisEffects) → Program redisEffects RateDecision → Prop
  | counting : Stage request [] request.program
  | failed : Stage request [⟨.incr request.redisKey, none⟩] (.done request.failOpen)
  | expiring : Stage request [⟨.incr request.redisKey, some 1⟩]
      (.call (.expire request.redisKey request.windowSecs) fun _ => request.report 1)
  | reporting (count : Int) (more : List (Event redisEffects))
      (hmore : ∀ event ∈ more, ∀ key, event.1 ≠ .incr key) :
      Stage request (⟨.incr request.redisKey, some count⟩ :: more) (request.report count)
  | answered (count : Int) (more : List (Event redisEffects))
      (hmore : ∀ event ∈ more, ∀ key, event.1 ≠ .incr key) (ttl : Option Int) :
      Stage request (⟨.incr request.redisKey, some count⟩ :: more)
        (.done (request.verdict count ttl))

/-- The first command of a check, and what follows it. -/
theorem program_eq (request : LimitRequest) :
    request.program = .call (.incr request.redisKey) fun reply =>
      match reply with
      | none => .done request.failOpen
      | some count =>
          if count = 1 then
            .call (.expire request.redisKey request.windowSecs) fun _ => request.report count
          else
            request.report count := by
  unfold program RedisLimiter.check
  refine congrArg (Program.call _) (funext fun reply => ?_)
  cases reply with
  | none => rfl
  | some count => rfl

theorem stage_of_report {request : LimitRequest} {count : Int}
    {history : List (Event redisEffects)} {rest : Program redisEffects RateDecision}
    (sent : List (Event redisEffects)) (hsent : ∀ event ∈ sent, ∀ key, event.1 ≠ .incr key)
    (h : Steps (request.report count) history rest) :
    Stage request (⟨.incr request.redisKey, some count⟩ :: (sent ++ history)) rest := by
  cases h with
  | refl =>
      rw [List.append_nil]
      exact .reporting count sent hsent
  | call _ _ ttl hdone =>
      cases hdone
      refine .answered count _ ?_ ttl
      intro event hevent key
      rcases List.mem_append.mp hevent with hearly | hlast
      · exact hsent event hearly key
      · rw [List.mem_singleton.mp hlast]
        exact RedisOp.noConfusion

/-- Every check stands at one of its stages, whatever it was answered. -/
theorem stage_of_steps {request : LimitRequest} {history : List (Event redisEffects)}
    {rest : Program redisEffects RateDecision} (h : Steps request.program history rest) :
    Stage request history rest := by
  have hprogram := request.program_eq
  generalize request.program = program at h hprogram
  cases h with
  | refl =>
      rw [hprogram, ← request.program_eq]
      exact .counting
  | call op next reply hrest =>
      obtain ⟨rfl, hnext⟩ := Program.call.inj hprogram
      obtain rfl := eq_of_heq hnext
      cases reply with
      | none =>
          cases hrest
          exact .failed
      | some count =>
          simp only at hrest
          split at hrest
          · -- The first count of a window: its expiry is set next.
            rename_i hfirst
            subst hfirst
            cases hrest with
            | refl => exact .expiring
            | call _ _ reply hreport =>
                exact stage_of_report [⟨.expire _ _, reply⟩] (by simp) hreport
          · exact stage_of_report [] (by simp) hrest

end LimitRequest

/-! ## The shared server -/

/-- What the outside contributes to one command. -/
structure RedisInput where
  failed : Bool := false
  /-- The clock of the server. -/
  now : Instant := 0

/-- One command at the server.  A failed command has no effect. -/
def redisAnswer (input : RedisInput) (store : RedisStore) : (op : RedisOp) → op.Res × RedisStore
  | .incr key =>
      if input.failed then (none, store)
      else
        let counted := Redis.incr store key
        (some counted.1, counted.2)
  | .expire key secs =>
      if input.failed then (false, store)
      else (true, Redis.expire store input.now key secs)
  | .ttl key =>
      if input.failed then (none, store) else (some (Redis.ttl store input.now key), store)

section RedisAnswer

variable {input : RedisInput}

theorem redisAnswer_of_failed (h : input.failed = true) (store : RedisStore) (op : RedisOp) :
    (redisAnswer input store op).2 = store := by
  cases op with
  | incr key => simp [redisAnswer, h]
  | expire key secs => simp [redisAnswer, h]
  | ttl key => simp [redisAnswer, h]

theorem redisAnswer_incr (h : input.failed = false) (store : RedisStore) (key : String) :
    redisAnswer input store (.incr key) =
      (some (Redis.incr store key).1, (Redis.incr store key).2) := by
  simp [redisAnswer, h]

theorem redisAnswer_expire (h : input.failed = false) (store : RedisStore) (key : String)
    (secs : Int) :
    redisAnswer input store (.expire key secs) =
      (true, Redis.expire store input.now key secs) := by
  simp [redisAnswer, h]

theorem redisAnswer_ttl (store : RedisStore) (key : String) :
    (redisAnswer input store (.ttl key)).2 = store := by
  unfold redisAnswer
  split
  · rfl
  · rfl

end RedisAnswer

/-- A key expires. -/
structure KeyExpiry where
  key : String

/-- Every command is awaited; a check that is dropped leaves the server as it is. -/
def limiterServer :
    Server redisEffects LimitRequest RedisInput KeyExpiry RedisStore RateDecision where
  interp := ⟨redisAnswer⟩
  start := LimitRequest.program
  awaits := fun _ => true
  onDrop := fun _ store => store
  disturb := fun expiry store => store.erase expiry.key

abbrev LimiterThread := Thread redisEffects LimitRequest RateDecision

abbrev LimiterPool := Pool redisEffects LimitRequest RedisStore RateDecision

abbrev LimiterAction := Action LimitRequest RedisInput KeyExpiry

/-- The checks of all instances, after a run of any length on an empty server. -/
def limiterAfter (actions : List LimiterAction) : LimiterPool :=
  Pool.after limiterServer ∅ actions

theorem limiterAfter_coherent (actions : List LimiterAction) :
    Pool.Coherent limiterServer (limiterAfter actions) :=
  Pool.coherent_after limiterServer ∅ actions

/-- Every check of a reachable pool stands at one of its stages. -/
theorem stage_after (actions : List LimiterAction) {index : Nat}
    {thread : LimiterThread} (h : (limiterAfter actions).threads[index]? = some thread) :
    thread.request.Stage thread.history thread.rest :=
  LimitRequest.stage_of_steps ((limiterAfter_coherent actions).steps index thread h)

end Gateway
end ApiGateway
