import ApiGateway.Core.Http
import ApiGateway.Library.CallRun

/-!
# The per-route response cache

`ResponseCache` holds the two configured numbers; the map behind the mutex is the
argument of `get` and `put`, which hold the lock for their whole body.  The
iteration order of the hash map is not specified, so `put` takes it as a hint: any
order of the keys present is obtained for some hint.
-/

namespace ApiGateway
namespace Gateway

open Library Core

/-- A cached upstream response. -/
structure CachedResponse where
  status : Nat
  headers : List (String × String)
  body : Bytes
  expiresAt : Instant
  deriving DecidableEq, Repr

/-- Time to live and capacity of a cache.  The capacity is never zero. -/
structure ResponseCache where
  ttl : Duration
  capacity : Nat
  pos : 0 < capacity

abbrev CacheMap := StringMap CachedResponse

namespace ResponseCache

def new (ttl : Duration) (capacity : Nat) : ResponseCache where
  ttl := ttl
  capacity := max capacity 1
  pos := by omega

/-- The cache key of a request: method, host and full path and query. -/
def key (method host pathAndQuery : String) : String :=
  method ++ " " ++ host ++ " " ++ pathAndQuery

/-- Look a key up.  An expired entry is removed. -/
def get (map : CacheMap) (key : String) (now : Instant) : Option CachedResponse × CacheMap :=
  match map.lookup key with
  | some entry => if now < entry.expiresAt then (some entry, map) else (none, map.erase key)
  | none => (none, map)

/-- The keys present, first those of the hint in its order. -/
def iterationOrder (map : CacheMap) (hint : List String) : List String :=
  hint.filter (fun key => key ∈ map.keys) ++ map.keys.filter (fun key => key ∉ hint)

def isExpired (map : CacheMap) (now : Instant) (key : String) : Bool :=
  (map.lookup key).any fun entry => decide (entry.expiresAt ≤ now)

/-- One expired entry, or else an arbitrary one. -/
def victim (map : CacheMap) (hint : List String) (now : Instant) : Option String :=
  ((iterationOrder map hint).find? (isExpired map now)).or (iterationOrder map hint).head?

/-- Make room for a new key when the map is full. -/
def evict (cache : ResponseCache) (map : CacheMap) (hint : List String) (key : String)
    (now : Instant) : CacheMap :=
  if cache.capacity ≤ map.keys.length ∧ key ∉ map.keys then
    match victim map hint now with
    | some old => map.erase old
    | none => map
  else
    map

/-- Store a response.  The clock is read when an entry is evicted and again for the
expiry. -/
def put (cache : ResponseCache) (map : CacheMap) (hint : List String) (key : String)
    (status : Nat) (headers : List (String × String)) (body : Bytes)
    (evictedAt storedAt : Instant) : CacheMap :=
  (evict cache map hint key evictedAt).insert key
    { status := status, headers := headers, body := body, expiresAt := storedAt + cache.ttl }

/-! ## What the operations do to the entries -/

/-- A hit is the entry of the map, and the map is not changed by it. -/
theorem get_eq_some {map map' : CacheMap} {key : String} {now : Instant} {hit : CachedResponse}
    (h : get map key now = (some hit, map')) :
    map.lookup key = some hit ∧ now < hit.expiresAt ∧ map' = map := by
  unfold get at h
  split at h
  · rename_i entry hentry
    split at h
    · rename_i hlive
      cases h
      exact ⟨hentry, hlive, rfl⟩
    · cases h
  · cases h

/-- Looking up adds and changes no entry. -/
theorem lookup_get {map : CacheMap} {key other : String} {now : Instant} {entry : CachedResponse}
    (h : (get map key now).2.lookup other = some entry) : map.lookup other = some entry := by
  unfold get at h
  split at h
  · split at h
    · exact h
    · by_cases hsame : other = key
      · subst hsame
        simp at h
      · rwa [AList.lookup_erase_ne hsame] at h
  · exact h

/-- Looking up drops no entry that is unexpired at the time. -/
theorem lookup_get_of_live {map : CacheMap} {key other : String} {now : Instant}
    {entry : CachedResponse} (h : map.lookup other = some entry) (hlive : now < entry.expiresAt) :
    (get map key now).2.lookup other = some entry := by
  unfold get
  by_cases hsame : other = key
  · subst hsame
    rw [h]
    simp [hlive, h]
  · split
    · split
      · exact h
      · rwa [AList.lookup_erase_ne hsame]
    · exact h

theorem lookup_evict {cache : ResponseCache} {map : CacheMap} {hint : List String}
    {key other : String} {now : Instant} {entry : CachedResponse}
    (h : (evict cache map hint key now).lookup other = some entry) :
    map.lookup other = some entry := by
  unfold evict at h
  split at h
  · split at h
    · rename_i old _
      by_cases hsame : other = old
      · subst hsame
        simp at h
      · rwa [AList.lookup_erase_ne hsame] at h
    · exact h
  · exact h

/-- Every entry after a store was there before, or is the one stored. -/
theorem lookup_put {cache : ResponseCache} {map : CacheMap} {hint : List String}
    {key other : String} {status : Nat} {headers : List (String × String)} {body : Bytes}
    {evictedAt storedAt : Instant} {entry : CachedResponse}
    (h : (put cache map hint key status headers body evictedAt storedAt).lookup other =
      some entry) :
    map.lookup other = some entry ∨
      (other = key ∧ entry = ⟨status, headers, body, storedAt + cache.ttl⟩) := by
  unfold put at h
  by_cases hsame : other = key
  · subst hsame
    rw [AList.lookup_insert] at h
    exact Or.inr ⟨rfl, (Option.some.inj h).symm⟩
  · rw [AList.lookup_insert_ne hsame] at h
    exact Or.inl (lookup_evict h)

end ResponseCache
end Gateway
end ApiGateway
