import Mathlib.Algebra.Group.Nat.Defs
import Mathlib.Algebra.Ring.Int.Defs
import ApiGateway.Library.CallRun
import ApiGateway.Library.Text

/-!
# Rate limiting

The fixed-window limiter of one process, and the limiter that counts in Redis.  The
Redis limiter is written over the three commands it sends, so that it can be run
against any server.  `u32` addition wraps, and the conversion of the Redis counter
keeps its low 32 bits.
-/

namespace ApiGateway
namespace Gateway

open Library

/-- The outcome of a rate-limit check, suitable for response headers. -/
structure RateDecision where
  allowed : Bool
  limit : UInt32
  remaining : UInt32
  resetSecs : UInt64
  deriving DecidableEq, Repr

/-- Whole seconds of a span. -/
def asSecs (span : Duration) : UInt64 := UInt64.ofNat (span / 1000000000)

/-- `u32::saturating_sub`. -/
def saturatingSub (a b : UInt32) : UInt32 := if b ≤ a then a - b else 0

/-- The decision both limiters report for a counter value. -/
def decision (limit used : UInt32) (resetSecs : UInt64) : RateDecision where
  allowed := used ≤ limit
  limit := limit
  remaining := saturatingSub limit (min used limit)
  resetSecs := resetSecs

/-- Window start and counter of every key seen. -/
abbrev Windows := StringMap (Instant × UInt32)

/-- Count one request against a key of the in-memory limiter. -/
def InMemoryLimiter.check (windows : Windows) (key : String) (limit : UInt32)
    (window : Duration) (now : Instant) : RateDecision × Windows :=
  let entry := (windows.lookup key).getD (now, 0)
  -- A window that has run out starts again with this request.
  let entry := if window ≤ now - entry.1 then (now, 0) else entry
  let used := entry.2 + 1
  (decision limit used (asSecs (window - (now - entry.1))), windows.insert key (entry.1, used))

section Redis

variable {m : Type → Type} [Monad m]

/-- The three commands of the Redis limiter; `none` is a failed command. -/
structure RedisCommands (m : Type → Type) where
  incr : String → m (Option Int)
  expire : String → Int → m Bool
  ttl : String → m (Option Int)

/-- Count one request against a key kept in Redis. -/
def RedisLimiter.check (conn : RedisCommands m) (key : String) (limit : UInt32)
    (window : Duration) : m RateDecision := do
  let redisKey := "gw:rl:" ++ key
  -- The cast to `i64` wraps for windows of `2 ^ 63` seconds and more.
  let windowSecs := Int.bmod (max (window / 1000000000) 1) (2 ^ 64)
  match ← conn.incr redisKey with
  | none =>
      -- The command failed: fail open.
      return { allowed := true, limit := limit, remaining := limit
               resetSecs := UInt64.ofNat (windowSecs % 2 ^ 64).toNat }
  | some count => do
      -- Only the first request of a window sets its expiry, and a failure to do so is ignored.
      if count = 1 then
        let _ ← conn.expire redisKey windowSecs
      let ttl := (← conn.ttl redisKey).getD windowSecs
      let used : UInt32 := UInt32.ofNat (max count 0).toNat
      return decision limit used (UInt64.ofNat (max ttl 0).toNat)

end Redis

end Gateway
end ApiGateway
