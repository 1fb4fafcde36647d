import ApiGateway.Gateway.Cache
import ApiGateway.Library.TtlMap

/-!
# The cache and the unbounded TTL map

A run of a cache is a list of `get` and `put` calls; each holds the lock for its whole
body, so the calls of any number of requests happen one after the other.  `ttlMap` is
the unbounded map with the same entries, of which nothing is ever evicted.

Three facts are proved of every run, whatever the iteration order of the hash map is at
each eviction: the number of entries is bounded, a hit is the last response put under
its key and has not expired, and as long as the unexpired keys fit into the cache every
lookup is answered as the unbounded map would.  An entry that has expired stays in the
map until it is looked up or evicted, and counts against the capacity until then; the
third fact needs that such an entry is preferred as the victim.
-/

namespace ApiGateway
namespace Gateway

open Library Core

namespace ResponseCache

/-- The arguments of a `put`, the iteration order it meets, and its two clock readings. -/
structure Put where
  key : String
  status : Nat
  headers : List (String × String)
  body : Bytes
  hint : List String
  evictedAt : Instant
  storedAt : Instant

inductive Call where
  | get (key : String) (now : Instant)
  | put (args : Put)

namespace Call

/-- The clock readings of a call, in order. -/
def instants : Call → List Instant
  | .get _ now => [now]
  | .put args => [args.evictedAt, args.storedAt]

def putKey : Call → Option String
  | .get _ _ => none
  | .put args => some args.key

end Call

/-- The clock never goes back along a run. -/
def InOrder (calls : List Call) : Prop := (calls.flatMap Call.instants).Pairwise (· ≤ ·)

instance (calls : List Call) : Decidable (InOrder calls) :=
  inferInstanceAs (Decidable ((calls.flatMap Call.instants).Pairwise (· ≤ ·)))

/-- The entry that a `put` makes. -/
def entryOf (cache : ResponseCache) (args : Put) : CachedResponse where
  status := args.status
  headers := args.headers
  body := args.body
  expiresAt := args.storedAt + cache.ttl

/-- One call: the answer of `get`, or nothing, and the map after it. -/
def step (cache : ResponseCache) (map : CacheMap) : Call → Option CachedResponse × CacheMap
  | .get key now => get map key now
  | .put args =>
      (none, cache.put map args.hint args.key args.status args.headers args.body args.evictedAt
        args.storedAt)

/-- The map after a run that starts with an empty cache. -/
def after (cache : ResponseCache) (history : List Call) : CacheMap := run (step cache) ∅ history

/-- The last response put under each key. -/
def ttlMap (cache : ResponseCache) (history : List Call) : TtlMap String CachedResponse :=
  history.foldl
    (fun map call =>
      match call with
      | .get _ _ => map
      | .put args => Function.update map args.key (some (cache.entryOf args)))
    fun _ => none

/-- What the unbounded map answers at an instant. -/
def ttlGet (cache : ResponseCache) (history : List Call) (key : String) (now : Instant) :
    Option CachedResponse :=
  (cache.ttlMap history).get CachedResponse.expiresAt key now

/-- The keys whose last response has not expired. -/
def liveKeys (cache : ResponseCache) (history : List Call) (now : Instant) : Finset String :=
  (history.filterMap Call.putKey).toFinset.filter fun key =>
    (cache.ttlGet history key now).isSome

/-- At every `put` of a run the unexpired keys and the new one fit into the cache.  The
keys are counted when the call reads the clock for the first time. -/
def Fits (cache : ResponseCache) (calls : List Call) : Prop :=
  ∀ before args rest, calls = before ++ .put args :: rest →
    (insert args.key (cache.liveKeys before args.evictedAt)).card ≤ cache.capacity

variable (cache : ResponseCache)

@[simp] theorem after_nil : cache.after [] = ∅ := rfl

@[simp] theorem after_snoc (history : List Call) (call : Call) :
    cache.after (history ++ [call]) = (step cache (cache.after history) call).2 := by
  simp [after]

@[simp] theorem ttlMap_snoc_get (history : List Call) (key : String) (now : Instant) :
    cache.ttlMap (history ++ [.get key now]) = cache.ttlMap history := by
  simp [ttlMap]

@[simp] theorem ttlMap_snoc_put (history : List Call) (args : Put) :
    cache.ttlMap (history ++ [.put args]) =
      Function.update (cache.ttlMap history) args.key (some (cache.entryOf args)) := by
  simp [ttlMap]

/-- The unbounded map holds the most recent `put` of each key. -/
theorem ttlMap_eq_some {history : List Call} {key : String} {entry : CachedResponse}
    (h : cache.ttlMap history key = some entry) :
    ∃ early args late, history = early ++ .put args :: late ∧ args.key = key ∧
      entry = cache.entryOf args ∧ ∀ later, Call.put later ∈ late → later.key ≠ key := by
  induction history using List.reverseRecOn with
  | nil => cases h
  | append_singleton history call ih =>
      cases call with
      | get other now =>
          rw [ttlMap_snoc_get] at h
          obtain ⟨early, args, late, rfl, hkey, hentry, hlast⟩ := ih h
          refine ⟨early, args, late ++ [.get other now], by simp, hkey, hentry, ?_⟩
          intro later hlater
          exact hlast later (by simpa using hlater)
      | put new =>
          rw [ttlMap_snoc_put] at h
          by_cases hkey : key = new.key
          · subst hkey
            rw [Function.update_self] at h
            exact ⟨history, new, [], rfl, rfl, (Option.some.inj h).symm, nofun⟩
          · rw [Function.update_of_ne hkey] at h
            obtain ⟨early, args, late, rfl, hargs, hentry, hlast⟩ := ih h
            refine ⟨early, args, late ++ [.put new], by simp, hargs, hentry, ?_⟩
            intro later hlater
            rcases List.mem_append.mp hlater with hold | hnew
            · exact hlast later hold
            · obtain rfl := Call.put.inj (List.mem_singleton.mp hnew)
              exact fun hsame => hkey hsame.symm

theorem mem_liveKeys {history : List Call} {key : String} {now : Instant}
    {entry : CachedResponse} (h : cache.ttlMap history key = some entry)
    (hlive : now < entry.expiresAt) : key ∈ cache.liveKeys history now := by
  obtain ⟨early, args, late, rfl, rfl, -, -⟩ := cache.ttlMap_eq_some h
  have hput : args.key ∈ ((early ++ Call.put args :: late).filterMap Call.putKey).toFinset := by
    simp [Call.putKey]
  have hget : cache.ttlGet (early ++ .put args :: late) args.key now = some entry :=
    (TtlMap.get_eq_some_iff CachedResponse.expiresAt).mpr ⟨h, hlive⟩
  exact Finset.mem_filter.mpr ⟨hput, by simp [hget]⟩

/-! ## The victim of an eviction -/

theorem mem_iterationOrder (map : CacheMap) (hint : List String) (key : String) :
    key ∈ iterationOrder map hint ↔ key ∈ map.keys := by
  unfold iterationOrder
  rw [List.mem_append, List.mem_filter, List.mem_filter]
  by_cases hhint : key ∈ hint
  · simp [hhint]
  · simp [hhint]

/-- An entry is chosen whenever there is one. -/
theorem exists_victim {map : CacheMap} (hint : List String) (now : Instant)
    (h : map.keys ≠ []) : ∃ old, victim map hint now = some old := by
  unfold victim
  cases horder : iterationOrder map hint with
  | nil =>
      exfalso
      obtain ⟨key, hkey⟩ := List.exists_mem_of_ne_nil _ h
      have hmem := (mem_iterationOrder map hint key).mpr hkey
      rw [horder] at hmem
      cases hmem
  | cons first order =>
      cases ((first :: order).find? (isExpired map now)) with
      | none => exact ⟨first, rfl⟩
      | some old => exact ⟨old, rfl⟩

theorem victim_mem {map : CacheMap} {hint : List String} {now : Instant} {old : String}
    (h : victim map hint now = some old) : old ∈ map.keys := by
  rw [← mem_iterationOrder map hint]
  unfold victim at h
  cases hfound : (iterationOrder map hint).find? (isExpired map now) with
  | none =>
      rw [hfound] at h
      exact List.mem_of_head? h
  | some expired =>
      rw [hfound] at h
      obtain rfl := Option.some.inj h
      exact List.mem_of_find?_eq_some hfound

/-- While an entry has expired, only an expired one is chosen. -/
theorem victim_expired {map : CacheMap} {hint : List String} {now : Instant} {old : String}
    (h : victim map hint now = some old)
    (hexists : ∃ key ∈ map.keys, isExpired map now key = true) :
    isExpired map now old = true := by
  obtain ⟨key, hkey, hexpired⟩ := hexists
  unfold victim at h
  cases hfound : (iterationOrder map hint).find? (isExpired map now) with
  | none =>
      have hnone := List.find?_eq_none.mp hfound key ((mem_iterationOrder map hint key).mpr hkey)
      exact absurd hexpired hnone
  | some expired =>
      rw [hfound] at h
      obtain rfl := Option.some.inj h
      exact List.find?_some hfound

theorem isExpired_of_lookup {map : CacheMap} {now : Instant} {key : String}
    {entry : CachedResponse} (h : map.lookup key = some entry) :
    isExpired map now key = decide (entry.expiresAt ≤ now) := by
  simp [isExpired, h]

/-! ## The number of entries -/

theorem length_keys_get (map : CacheMap) (key : String) (now : Instant) :
    (get map key now).2.keys.length ≤ map.keys.length := by
  unfold get
  split
  · split
    · exact Nat.le_refl _
    · rw [AList.keys_erase]
      exact List.length_erase_le
  · exact Nat.le_refl _

/-- Inserting a key that is present does not add one. -/
theorem length_keys_insert (map : CacheMap) (key : String) (entry : CachedResponse) :
    (map.insert key entry).keys.length =
      if key ∈ map.keys then map.keys.length else map.keys.length + 1 := by
  rw [AList.keys_insert, List.length_cons]
  by_cases hkey : key ∈ map.keys
  · rw [if_pos hkey, List.length_erase_of_mem hkey]
    have hpos := List.length_pos_of_mem hkey
    omega
  · rw [if_neg hkey, List.erase_of_not_mem hkey]

/-- After the eviction there is room for the key, or the key is present. -/
theorem length_keys_evict {map : CacheMap} (hint : List String) (key : String) (now : Instant)
    (h : map.keys.length ≤ cache.capacity) :
    (evict cache map hint key now).keys.length ≤ cache.capacity ∧
      (key ∉ (evict cache map hint key now).keys →
        (evict cache map hint key now).keys.length < cache.capacity) := by
  have hpos := cache.pos
  unfold evict
  by_cases hfull : cache.capacity ≤ map.keys.length ∧ key ∉ map.keys
  · rw [if_pos hfull]
    have hnonempty : map.keys ≠ [] := by
      apply List.ne_nil_of_length_pos
      omega
    obtain ⟨old, hold⟩ := exists_victim hint now hnonempty
    have hlength := List.length_erase_of_mem (victim_mem hold)
    rw [hold]
    simp only [AList.keys_erase, hlength]
    omega
  · rw [if_neg hfull]
    refine ⟨h, fun hkey => ?_⟩
    by_contra hroom
    exact hfull ⟨by omega, hkey⟩

theorem length_keys_step {map : CacheMap} (call : Call) (h : map.keys.length ≤ cache.capacity) :
    (step cache map call).2.keys.length ≤ cache.capacity := by
  cases call with
  | get key now =>
      show (get map key now).2.keys.length ≤ cache.capacity
      have hget := length_keys_get map key now
      omega
  | put args =>
      show ((evict cache map args.hint args.key args.evictedAt).insert args.key _).keys.length ≤ _
      obtain ⟨hlength, hroom⟩ := cache.length_keys_evict args.hint args.key args.evictedAt h
      rw [length_keys_insert]
      split
      · exact hlength
      · rename_i hkey
        exact hroom hkey

theorem length_keys_after (history : List Call) :
    (cache.after history).keys.length ≤ cache.capacity :=
  run_induction (fun _ => True) (fun _ (map : CacheMap) => map.keys.length ≤ cache.capacity)
    (fun _ _ _ => trivial) (Nat.zero_le _) (fun _ _ call _ h => cache.length_keys_step call h)
    history trivial

/-! ## The entries -/

/-- The entries of a map, as the unbounded map has them. -/
def view (map : CacheMap) : TtlMap String CachedResponse := fun key => map.lookup key

theorem get_fst (map : CacheMap) (key : String) (now : Instant) :
    (get map key now).1 = (view map).get CachedResponse.expiresAt key now := by
  unfold get TtlMap.get view
  cases map.lookup key with
  | none => rfl
  | some entry =>
      by_cases hlive : now < entry.expiresAt
      · simp [Option.filter, hlive]
      · simp [Option.filter, hlive]

theorem view_put_self (map : CacheMap) (args : Put) :
    view (step cache map (.put args)).2 args.key = some (cache.entryOf args) :=
  AList.lookup_insert _

theorem view_put_ne (map : CacheMap) (args : Put) {key : String} (h : key ≠ args.key) :
    view (step cache map (.put args)).2 key =
      view (evict cache map args.hint args.key args.evictedAt) key :=
  AList.lookup_insert_ne h

theorem sound_step {history : List Call} {map : CacheMap} (call : Call)
    (h : TtlMap.Sound (view map) (cache.ttlMap history)) :
    TtlMap.Sound (view (step cache map call).2) (cache.ttlMap (history ++ [call])) := by
  intro key entry hentry
  cases call with
  | get other now =>
      rw [ttlMap_snoc_get]
      exact h key entry (lookup_get hentry)
  | put args =>
      rw [ttlMap_snoc_put]
      by_cases hkey : key = args.key
      · subst hkey
        rw [view_put_self] at hentry
        rw [Function.update_self, hentry]
      · rw [view_put_ne cache map args hkey] at hentry
        rw [Function.update_of_ne hkey]
        exact h key entry (lookup_evict hentry)

/-- Whatever the cache holds was put last under its key. -/
theorem sound_after (history : List Call) :
    TtlMap.Sound (view (cache.after history)) (cache.ttlMap history) :=
  run_induction (fun _ => True) (fun history map => TtlMap.Sound (view map) (cache.ttlMap history))
    (fun _ _ _ => trivial) (fun _ _ h => by cases h)
    (fun _ _ call _ h => cache.sound_step call h) history trivial

/-! ## Nothing is forgotten while the unexpired keys fit -/

/-- An entry that is gone after an eviction was the victim chosen in a full map. -/
theorem evict_gone {map : CacheMap} {hint : List String} {key new : String} {now : Instant}
    {entry : CachedResponse} (hentry : view map key = some entry)
    (hgone : view (evict cache map hint new now) key = none) :
    cache.capacity ≤ map.keys.length ∧ new ∉ map.keys ∧ victim map hint now = some key := by
  unfold evict at hgone
  by_cases hfull : cache.capacity ≤ map.keys.length ∧ new ∉ map.keys
  · rw [if_pos hfull] at hgone
    split at hgone
    · rename_i old hold
      by_cases hsame : key = old
      · subst hsame
        exact ⟨hfull.1, hfull.2, hold⟩
      · have hkept : view (map.erase old) key = view map key := AList.lookup_erase_ne hsame
        rw [hkept, hentry] at hgone
        cases hgone
    · rw [hentry] at hgone
      cases hgone
  · rw [if_neg hfull, hentry] at hgone
    cases hgone

/-- No unexpired entry is evicted while there is an expired one. -/
theorem evict_prefers_expired {map : CacheMap} {hint : List String} {key new other : String}
    {now : Instant} {entry stale : CachedResponse} (hentry : view map key = some entry)
    (hgone : view (evict cache map hint new now) key = none)
    (hstale : view map other = some stale) (hexpired : stale.expiresAt ≤ now) :
    entry.expiresAt ≤ now := by
  obtain ⟨-, -, hvictim⟩ := cache.evict_gone hentry hgone
  have hmem : other ∈ map.keys := AList.lookup_isSome.mp (Option.isSome_of_eq_some hstale)
  have hother : isExpired map now other = true := by
    rw [isExpired_of_lookup hstale]
    exact decide_eq_true hexpired
  have hkey := victim_expired hvictim ⟨other, hmem, hother⟩
  rw [isExpired_of_lookup hentry] at hkey
  exact of_decide_eq_true hkey

/-- When the unexpired keys fit, an eviction removes an expired entry. -/
theorem evict_expired {history : List Call} {map : CacheMap} {args : Put} {key : String}
    {entry : CachedResponse} (hsound : TtlMap.Sound (view map) (cache.ttlMap history))
    (hfits : (insert args.key (cache.liveKeys history args.evictedAt)).card ≤ cache.capacity)
    (hentry : view map key = some entry)
    (hgone : view (evict cache map args.hint args.key args.evictedAt) key = none) :
    entry.expiresAt ≤ args.evictedAt := by
  obtain ⟨hfull, hnew, -⟩ := cache.evict_gone hentry hgone
  -- The map holds more keys than are unexpired, so one of them has expired.
  have hcard : cache.capacity ≤ map.keys.toFinset.card := by
    rw [List.toFinset_card_of_nodup map.keys_nodup]
    exact hfull
  have hnotMem : args.key ∉ map.keys.toFinset := by simpa using hnew
  obtain ⟨dead, hdead, hnotLive⟩ := TtlMap.exists_expired hfits hcard hnotMem
  have hmem : dead ∈ map.keys := by simpa using hdead
  obtain ⟨stale, hstale⟩ := Option.isSome_iff_exists.mp (AList.lookup_isSome.mpr hmem)
  apply cache.evict_prefers_expired hentry hgone hstale
  by_contra hlive
  apply hnotLive
  apply cache.mem_liveKeys (hsound dead stale hstale)
  exact Nat.not_le.mp hlive

/-- The cache is complete at every instant from the end of the run on. -/
def CompleteAfter (history : List Call) (map : CacheMap) : Prop :=
  ∀ now, (∀ earlier ∈ history.flatMap Call.instants, earlier ≤ now) →
    TtlMap.Complete CachedResponse.expiresAt (view map) (cache.ttlMap history) now

theorem completeAfter_step {history : List Call} {map : CacheMap} (call : Call)
    (hsound : TtlMap.Sound (view map) (cache.ttlMap history))
    (hfits : cache.Fits (history ++ [call])) (h : cache.CompleteAfter history map) :
    cache.CompleteAfter (history ++ [call]) (step cache map call).2 := by
  intro now hnow key entry hentry hlive
  have hpast : ∀ earlier ∈ history.flatMap Call.instants, earlier ≤ now := by
    intro earlier hearlier
    apply hnow
    simp only [List.flatMap_append, List.mem_append]
    exact Or.inl hearlier
  cases call with
  | get other readAt =>
      rw [ttlMap_snoc_get] at hentry
      have hheld : map.lookup key = some entry := h now hpast key entry hentry hlive
      have hle : readAt ≤ now := by
        apply hnow
        simp [Call.instants]
      -- It is unexpired afterwards, so it was when the other key was read.
      exact lookup_get_of_live hheld (Nat.lt_of_le_of_lt hle hlive)
  | put args =>
      rw [ttlMap_snoc_put] at hentry
      by_cases hkey : key = args.key
      · subst hkey
        rw [Function.update_self] at hentry
        rw [view_put_self, hentry]
      · rw [Function.update_of_ne hkey] at hentry
        rw [view_put_ne cache map args hkey]
        have hheld : view map key = some entry := h now hpast key entry hentry hlive
        have hle : args.evictedAt ≤ now := by
          apply hnow
          simp [Call.instants]
        cases hkept : view (evict cache map args.hint args.key args.evictedAt) key with
        | none =>
            have hexpired := cache.evict_expired hsound (hfits history args [] rfl) hheld hkept
            exact absurd (Nat.le_trans hexpired hle) (Nat.not_le.mpr hlive)
        | some other =>
            have hsame : view map key = some other := lookup_evict hkept
            rw [← hsame, hheld]

theorem Fits.of_append {cache : ResponseCache} {before rest : List Call}
    (h : cache.Fits (before ++ rest)) : cache.Fits before := by
  intro early args late hsplit
  apply h early args (late ++ rest)
  rw [hsplit]
  simp

theorem completeAfter_after {history : List Call} (hfits : cache.Fits history) :
    cache.CompleteAfter history (cache.after history) := by
  induction history using List.reverseRecOn with
  | nil => exact fun _ _ _ _ hentry => by cases hentry
  | append_singleton history call ih =>
      rw [after_snoc]
      exact cache.completeAfter_step call (cache.sound_after history) hfits (ih hfits.of_append)

/-- The clock readings before a `get` are not after it. -/
theorem InOrder.le_of_get {before rest : List Call} {key : String} {now : Instant}
    (h : InOrder (before ++ .get key now :: rest)) :
    ∀ earlier ∈ before.flatMap Call.instants, earlier ≤ now := by
  unfold InOrder at h
  rw [List.flatMap_append, List.pairwise_append] at h
  intro earlier hearlier
  apply h.2.2 earlier hearlier
  simp [Call.instants]

/-- **The cache refines the unbounded TTL map.**  Along every run with nondecreasing
times, for every time to live, every capacity and every iteration order: the number of
entries stays within the capacity; a hit is the most recent `put` of its key and has not
expired; when the unexpired keys fit at every `put`, each lookup is answered as the
unbounded map answers it; and no unexpired entry is evicted while there is an expired
one. -/
theorem cache_refines_ttlMap (ttl : Duration) (capacity : Nat) (calls : List Call)
    (horder : InOrder calls) :
    (∀ before rest, calls = before ++ rest →
      ((new ttl capacity).after before).keys.length ≤ max capacity 1) ∧
    (∀ before key now rest hit, calls = before ++ .get key now :: rest →
      (step (new ttl capacity) ((new ttl capacity).after before) (.get key now)).1 = some hit →
        ∃ early args late, before = early ++ .put args :: late ∧ args.key = key ∧
          (∀ later, Call.put later ∈ late → later.key ≠ key) ∧
          hit.status = args.status ∧ hit.headers = args.headers ∧ hit.body = args.body ∧
          now < args.storedAt + ttl) ∧
    ((new ttl capacity).Fits calls → ∀ before key now rest,
      calls = before ++ .get key now :: rest →
        (step (new ttl capacity) ((new ttl capacity).after before) (.get key now)).1 =
          (new ttl capacity).ttlGet before key now) ∧
    (∀ before args rest key entry other stale, calls = before ++ .put args :: rest →
      view ((new ttl capacity).after before) key = some entry → key ≠ args.key →
      view ((new ttl capacity).after (before ++ [.put args])) key = none →
      view ((new ttl capacity).after before) other = some stale →
      stale.expiresAt ≤ args.evictedAt → entry.expiresAt ≤ args.evictedAt) := by
  refine ⟨fun before rest _ => (new ttl capacity).length_keys_after before, ?_, ?_, ?_⟩
  · intro before key now rest hit _ hhit
    obtain ⟨hentry, hlive, -⟩ := get_eq_some (Prod.ext hhit rfl)
    obtain ⟨early, args, late, hsplit, hkey, rfl, hlast⟩ :=
      (new ttl capacity).ttlMap_eq_some ((new ttl capacity).sound_after before key hit hentry)
    exact ⟨early, args, late, hsplit, hkey, hlast, rfl, rfl, rfl, hlive⟩
  · rintro hfits before key now rest rfl
    have hcomplete := (new ttl capacity).completeAfter_after hfits.of_append now horder.le_of_get
    show (get _ key now).1 = _
    rw [get_fst]
    exact TtlMap.get_eq_of_sound_of_complete _ ((new ttl capacity).sound_after before) hcomplete key
  · intro before args rest key entry other stale _ hentry hkey hgone hstale hexpired
    rw [after_snoc, view_put_ne _ _ _ hkey] at hgone
    exact (new ttl capacity).evict_prefers_expired hentry hgone hstale hexpired

/-- Store an empty response under a key. -/
def plainPut (key : String) (now : Instant) : Put where
  key := key
  status := 200
  headers := []
  body := []
  hint := []
  evictedAt := now
  storedAt := now

/-- One slot; the second key is put after the first has expired. -/
def oneSlotRun : List Call :=
  [.put (plainPut "a" 0), .get "a" 5, .put (plainPut "b" 20), .get "b" 21]

theorem oneSlotRun_fits : (new 10 1).Fits oneSlotRun := by
  intro before args rest hsplit
  -- The two stores are the first and the third call.
  match before with
  | [] =>
      simp only [oneSlotRun, List.nil_append, List.cons.injEq, Call.put.injEq] at hsplit
      obtain ⟨rfl, -⟩ := hsplit
      decide
  | [first] => simp [oneSlotRun] at hsplit
  | [first, second] =>
      simp only [oneSlotRun, List.cons_append, List.nil_append, List.cons.injEq,
        Call.put.injEq] at hsplit
      obtain ⟨rfl, rfl, rfl, -⟩ := hsplit
      decide
  | [first, second, third] => simp [oneSlotRun] at hsplit
  | _ :: _ :: _ :: _ :: before => simp [oneSlotRun] at hsplit

/-- The expired entry makes way, and the second key is found. -/
theorem cache_refines_ttlMap_oneSlot :
    InOrder oneSlotRun ∧
      (step (new 10 1) ((new 10 1).after (oneSlotRun.take 3)) (.get "b" 21)).1 =
        (new 10 1).ttlGet (oneSlotRun.take 3) "b" 21 ∧
      ((new 10 1).ttlGet (oneSlotRun.take 3) "b" 21).isSome = true := by
  have horder : InOrder oneSlotRun := by decide
  obtain ⟨-, -, hanswers, -⟩ := cache_refines_ttlMap 10 1 oneSlotRun horder
  exact ⟨horder, hanswers oneSlotRun_fits (oneSlotRun.take 3) "b" 21 [] rfl, by decide⟩

end ResponseCache
end Gateway
end ApiGateway
