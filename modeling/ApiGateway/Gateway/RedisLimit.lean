import ApiGateway.Gateway.Redis
import ApiGateway.Gateway.WindowLaw

/-!
# A limit that is global

Between two expiries of a key its counter is the number of increments, so the increments
are answered with one, two, three and so on, whoever sends them.  A check decides by the
count it was answered with, and nothing that happens to it later changes the decision.
The limit therefore holds for all instances together; what an instance learns from `TTL`,
and whether its `EXPIRE` gets through, does not matter for it.
-/

namespace ApiGateway
namespace Gateway

open Library Program

/-- The thread and the answer of a successful increment of the key. -/
def countOf (key : String) (entry : Nat × Event redisEffects) : Option (Nat × Int) :=
  match entry.2 with
  | ⟨.incr other, some count⟩ => if other = key then some (entry.1, count) else none
  | _ => none

def countsOf (key : String) (log : List (Nat × Event redisEffects)) : List (Nat × Int) :=
  log.filterMap (countOf key)

/-- What the counter of a key stands at. -/
def counted (pool : LimiterPool) (key : String) : Int :=
  ((pool.state.lookup key).map RedisCounter.count).getD 0

/-- A time between two expiries of a key: the key is absent when it begins, and is not
removed while it lasts. -/
structure Period (key : String) (earlier actions : List LimiterAction) : Prop where
  absent : (limiterAfter earlier).state.lookup key = none
  kept : ∀ before action after, actions = before ++ action :: after →
    ((limiterAfter (earlier ++ before)).state.lookup key).isSome = true →
      ((limiterAfter (earlier ++ before ++ [action])).state.lookup key).isSome = true

theorem Period.dropLast {key : String} {earlier actions : List LimiterAction}
    {action : LimiterAction} (h : Period key earlier (actions ++ [action])) :
    Period key earlier actions := by
  refine ⟨h.absent, fun before middle after hsplit => ?_⟩
  apply h.kept before middle (after ++ [action])
  rw [hsplit]
  simp

/-! ## The counter in one step -/

theorem countOf_eq_some {key : String} {entry : Nat × Event redisEffects} {index : Nat}
    {count : Int} :
    countOf key entry = some (index, count) ↔ entry = (index, ⟨.incr key, some count⟩) := by
  obtain ⟨caller, op, reply⟩ := entry
  cases op with
  | expire other secs => simp [countOf]
  | ttl other => simp [countOf]
  | incr other =>
      cases reply with
      | none => simp [countOf]
      | some reply =>
          by_cases hkey : other = key
          · subst hkey
            simp [countOf]
          · simp [countOf, hkey]

/-- What one command does to the counter of a key that it does not remove: it counts, or
it leaves the value as it is. -/
theorem counted_answer (input : RedisInput) (store : RedisStore) (op : RedisOp) (key : String)
    (index : Nat)
    (hkept : (store.lookup key).isSome = true →
      ((redisAnswer input store op).2.lookup key).isSome = true) :
    (op = .incr key ∧
      countOf key (index, ⟨op, (redisAnswer input store op).1⟩) =
        some (index, ((store.lookup key).map RedisCounter.count).getD 0 + 1) ∧
      ((redisAnswer input store op).2.lookup key).map RedisCounter.count =
        some (((store.lookup key).map RedisCounter.count).getD 0 + 1)) ∨
    (countOf key (index, ⟨op, (redisAnswer input store op).1⟩) = none ∧
      ((redisAnswer input store op).2.lookup key).map RedisCounter.count =
        (store.lookup key).map RedisCounter.count) := by
  cases hfailed : input.failed with
  | true =>
      right
      refine ⟨?_, by rw [redisAnswer_of_failed hfailed]⟩
      cases op with
      | incr other => simp [redisAnswer, hfailed, countOf]
      | expire other secs => rfl
      | ttl other => rfl
  | false =>
      cases op with
      | incr other =>
          rw [redisAnswer_incr hfailed]
          by_cases hkey : other = key
          · left
            subst hkey
            simp [countOf, Redis.lookup_incr_self store other, Redis.incr_fst store other]
          · right
            simp [countOf, hkey, Redis.lookup_incr_ne store (Ne.symm hkey)]
      | ttl other => exact Or.inr ⟨rfl, by rw [redisAnswer_ttl]⟩
      | expire other secs =>
          rw [redisAnswer_expire hfailed] at hkept ⊢
          exact Or.inr ⟨rfl, Redis.count_expire store input.now secs hkept⟩

/-- What one action does to the counter of a key that it does not remove, and to the log. -/
theorem counted_step (pool : LimiterPool) (action : LimiterAction) (key : String)
    (hkept : (pool.state.lookup key).isSome = true →
      ((pool.step limiterServer action).state.lookup key).isSome = true) :
    ∃ new, (pool.step limiterServer action).log = pool.log ++ new ∧
      ((∃ index, countsOf key new = [(index, counted pool key + 1)] ∧
          counted (pool.step limiterServer action) key = counted pool key + 1) ∨
        (countsOf key new = [] ∧
          counted (pool.step limiterServer action) key = counted pool key)) := by
  rcases Pool.step_cases limiterServer pool action with ⟨_, hpool⟩ |
    ⟨caller, _, op, _, input, -, -, hpool⟩ | ⟨_, _, -, hpool⟩ | ⟨expiry, hpool⟩ | hpool
  · exact ⟨[], by rw [hpool]; simp, Or.inr ⟨rfl, by rw [hpool]; rfl⟩⟩
  · rw [hpool] at hkept ⊢
    refine ⟨_, rfl, ?_⟩
    rcases counted_answer input pool.state op key caller hkept with ⟨-, hcount, hafter⟩ |
      ⟨hcount, hafter⟩
    · exact Or.inl ⟨caller, List.filterMap_cons_some hcount, congrArg (Option.getD · 0) hafter⟩
    · exact Or.inr ⟨List.filterMap_cons_none hcount, congrArg (Option.getD · 0) hafter⟩
  · exact ⟨[], by rw [hpool]; simp, Or.inr ⟨rfl, by rw [hpool]; rfl⟩⟩
  · rw [hpool] at hkept ⊢
    refine ⟨[], (List.append_nil _).symm, Or.inr ⟨rfl, ?_⟩⟩
    show (((pool.state.erase expiry.key).lookup key).map RedisCounter.count).getD 0 = _
    by_cases hkey : key = expiry.key
    · -- The key itself expires: it must have been absent.
      subst hkey
      have hgone : (pool.state.erase expiry.key).lookup expiry.key = none :=
        AList.lookup_erase _ _
      cases hlookup : pool.state.lookup expiry.key with
      | none => rw [hgone, counted, hlookup]
      | some counter =>
          have hstays : ((pool.state.erase expiry.key).lookup expiry.key).isSome = true :=
            hkept (by rw [hlookup]; rfl)
          rw [hgone] at hstays
          cases hstays
    · rw [AList.lookup_erase_ne hkey]
      rfl
  · exact ⟨[], by rw [hpool]; simp, Or.inr ⟨rfl, by rw [hpool]⟩⟩

/-! ## The counter over a period -/

/-- **The counts of a period.**  The increments of a key between two expiries are answered
with one, two, three and so on. -/
theorem counts_of_period {key : String} {earlier actions : List LimiterAction}
    (h : Period key earlier actions) {during : List (Nat × Event redisEffects)}
    (hduring : (limiterAfter (earlier ++ actions)).log = (limiterAfter earlier).log ++ during) :
    (countsOf key during).map Prod.snd =
        (List.range (countsOf key during).length).map (fun n : Nat => (n : Int) + 1) ∧
      counted (limiterAfter (earlier ++ actions)) key = (countsOf key during).length := by
  induction actions using List.reverseRecOn generalizing during with
  | nil =>
      rw [List.append_nil] at hduring ⊢
      have hnil : during = [] := by simpa using hduring.symm
      rw [hnil]
      refine ⟨rfl, ?_⟩
      rw [counted, h.absent]
      rfl
  | append_singleton actions action ih =>
      obtain ⟨before, hbefore⟩ : ∃ before, (limiterAfter (earlier ++ actions)).log =
          (limiterAfter earlier).log ++ before :=
        Pool.log_append limiterServer ∅ earlier actions
      obtain ⟨hcounts, hcounted⟩ := ih h.dropLast hbefore
      have hkept := h.kept actions action [] rfl
      have hsnoc : limiterAfter (earlier ++ actions ++ [action]) =
          (limiterAfter (earlier ++ actions)).step limiterServer action :=
        Pool.after_snoc limiterServer ∅ _ action
      rw [hsnoc] at hkept
      obtain ⟨new, hlog, hnew⟩ := counted_step (limiterAfter (earlier ++ actions)) action key hkept
      -- The calls of the period are those before the action and the new one.
      obtain rfl : during = before ++ new := by
        rw [← List.append_assoc, hsnoc, hlog] at hduring
        have hlogs : (limiterAfter earlier).log ++ (before ++ new) =
            (limiterAfter earlier).log ++ during := by
          rw [← hduring, ← List.append_assoc, ← hbefore]
        exact (List.append_cancel_left hlogs).symm
      rw [← List.append_assoc, hsnoc, countsOf, List.filterMap_append, ← countsOf, ← countsOf]
      rcases hnew with ⟨index, hone, hafter⟩ | ⟨hnone, hafter⟩
      · rw [hone, hafter, hcounted, List.map_append, hcounts, List.length_append,
          List.length_singleton, List.range_succ, List.map_append]
        exact ⟨rfl, by push_cast; rfl⟩
      · rw [hnone, hafter, List.append_nil]
        exact ⟨hcounts, hcounted⟩

/-- Of the counts from one to `n`, the smaller one of `n` and `limit` are within the
limit. -/
theorem countP_counts (n limit : Nat) :
    ((List.range n).map fun k : Nat => (k : Int) + 1).countP (fun count : Int => count ≤ limit) =
      min n limit := by
  induction n with
  | zero => simp
  | succ n ih =>
      rw [List.range_succ, List.map_append, List.countP_append, ih, List.map_singleton,
        List.countP_singleton]
      by_cases hwithin : (n : Int) + 1 ≤ limit
      · rw [if_pos (decide_eq_true hwithin)]
        omega
      · rw [if_neg (by simpa using hwithin)]
        omega

/-! ## The checks of a period -/

/-- What a check has returned, once it is through. -/
def returned (pool : LimiterPool) (index : Nat) : Option RateDecision :=
  match pool.threads[index]? with
  | some thread =>
      match thread.rest with
      | .done decision => some decision
      | .call _ _ => none
  | none => none

def isIncr (event : Event redisEffects) : Bool :=
  match event.1 with
  | .incr _ => true
  | _ => false

/-- A check increments once. -/
theorem LimitRequest.Stage.countP_isIncr_le {request : LimitRequest}
    {history : List (Event redisEffects)} {rest : Program redisEffects RateDecision}
    (h : request.Stage history rest) : history.countP isIncr ≤ 1 := by
  have hnone : ∀ more : List (Event redisEffects),
      (∀ event ∈ more, ∀ key, event.1 ≠ .incr key) → more.countP isIncr = 0 := by
    intro more hmore
    rw [List.countP_eq_zero]
    rintro ⟨op, reply⟩ hevent hincr
    cases op with
    | incr key => exact hmore _ hevent key rfl
    | expire key secs => cases hincr
    | ttl key => cases hincr
  have honce : ∀ (first : Event redisEffects) (more : List (Event redisEffects)),
      (∀ event ∈ more, ∀ key, event.1 ≠ .incr key) → (first :: more).countP isIncr ≤ 1 := by
    intro first more hmore
    rw [List.countP_cons, hnone more hmore]
    split
    · exact Nat.le_refl _
    · exact Nat.zero_le _
  cases h with
  | counting => exact Nat.zero_le _
  | failed => exact Nat.le_refl _
  | expiring => exact Nat.le_refl _
  | reporting count more hmore => exact honce _ more hmore
  | answered count more hmore ttl => exact honce _ more hmore

/-- The count a check was answered with is the only one in its history. -/
theorem LimitRequest.Stage.eq_verdict {request : LimitRequest}
    {history : List (Event redisEffects)} {decision : RateDecision}
    (h : request.Stage history (.done decision)) {key : String} {count : Int}
    (hcount : (⟨.incr key, some count⟩ : Event redisEffects) ∈ history) :
    key = request.redisKey ∧ ∃ ttl, decision = request.verdict count ttl := by
  cases h with
  | failed => simp at hcount
  | answered count' more hmore ttl =>
      rcases List.mem_cons.mp hcount with hhead | htail
      · simp only [Sigma.mk.injEq, RedisOp.incr.injEq] at hhead
        obtain ⟨rfl, hreply⟩ := hhead
        obtain rfl := Option.some.inj (eq_of_heq hreply)
        exact ⟨rfl, ttl, rfl⟩
      · exact absurd rfl (hmore _ htail key)

/-- A thread is not listed more often than it has incremented. -/
theorem count_countsOf_le (key : String) (log : List (Nat × Event redisEffects)) (index : Nat) :
    ((countsOf key log).map Prod.fst).count index ≤ (Pool.callsOf log index).countP isIncr := by
  induction log with
  | nil => exact Nat.zero_le _
  | cons entry log ih =>
      have hcalls : Pool.callsOf (entry :: log) index =
          (if entry.1 = index then [entry.2] else []) ++ Pool.callsOf log index := by
        by_cases hindex : entry.1 = index
        · simp [Pool.callsOf, hindex]
        · simp [Pool.callsOf, hindex]
      rw [hcalls, List.countP_append]
      cases hentry : countOf key entry with
      | none =>
          rw [countsOf, List.filterMap_cons_none hentry]
          exact Nat.le_add_left_of_le ih
      | some found =>
          obtain ⟨caller, count⟩ := found
          obtain rfl := countOf_eq_some.mp hentry
          rw [countsOf, List.filterMap_cons_some hentry, List.map_cons, List.count_cons]
          by_cases hindex : caller = index
          · rw [if_pos (beq_iff_eq.mpr hindex), if_pos hindex]
            have hone : List.countP isIncr [⟨.incr key, some count⟩] = 1 := rfl
            rw [hone, Nat.add_comm]
            exact Nat.add_le_add_left ih 1
          · rw [if_neg (by simpa using hindex), if_neg hindex]
            rw [countsOf] at ih
            simpa using ih

theorem mem_of_mem_countsOf {key : String} {log : List (Nat × Event redisEffects)} {index : Nat}
    {count : Int} (h : (index, count) ∈ countsOf key log) :
    (index, (⟨.incr key, some count⟩ : Event redisEffects)) ∈ log := by
  obtain ⟨entry, hentry, hfound⟩ := List.mem_filterMap.mp h
  rwa [countOf_eq_some.mp hfound] at hentry

section Pool

variable {actions : List LimiterAction} {key : String}
  {before during after : List (Nat × Event redisEffects)}
  (hlog : (limiterAfter actions).log = before ++ during ++ after)

include hlog

/-- No check is counted twice in a part of a run. -/
theorem nodup_countsOf : ((countsOf key during).map Prod.fst).Nodup := by
  rw [List.nodup_iff_count_le_one]
  intro index
  have hpart : ((countsOf key during).map Prod.fst).count index ≤
      ((countsOf key (limiterAfter actions).log).map Prod.fst).count index := by
    rw [hlog]
    simp only [countsOf, List.filterMap_append, List.map_append, List.count_append]
    omega
  refine Nat.le_trans hpart (Nat.le_trans (count_countsOf_le key _ index) ?_)
  cases hthread : (limiterAfter actions).threads[index]? with
  | some thread =>
      rw [← (limiterAfter_coherent actions).history index thread hthread]
      exact (stage_after actions hthread).countP_isIncr_le
  | none =>
      -- Nobody with this number has called anything.
      have hnobody : Pool.callsOf (limiterAfter actions).log index = [] := by
        unfold Pool.callsOf
        rw [List.filterMap_eq_nil_iff]
        intro entry hentry
        have howner := (limiterAfter_coherent actions).owner entry hentry
        have hbeyond := List.getElem?_eq_none_iff.mp hthread
        rw [if_neg]
        intro hindex
        rw [hindex] at howner
        exact absurd howner (Nat.not_lt.mpr hbeyond)
      rw [hnobody]
      exact Nat.zero_le _

/-- A check that was answered with a count, and is through, has decided by that count. -/
theorem returned_of_count {index : Nat} {count : Int} (hcount : (index, count) ∈ countsOf key during)
    {decision : RateDecision} (hreturned : returned (limiterAfter actions) index = some decision) :
    ∃ thread, thread ∈ (limiterAfter actions).threads ∧ key = thread.request.redisKey ∧
      ∃ ttl, decision = thread.request.verdict count ttl := by
  have hmem : (index, (⟨.incr key, some count⟩ : Event redisEffects)) ∈
      (limiterAfter actions).log := by
    rw [hlog]
    exact List.mem_append_left _ (List.mem_append_right _ (mem_of_mem_countsOf hcount))
  obtain ⟨thread, hthread, hevent⟩ := (limiterAfter_coherent actions).mem_history hmem
  have hstage := stage_after actions hthread
  unfold returned at hreturned
  rw [hthread] at hreturned
  simp only at hreturned
  cases hrest : thread.rest with
  | call op next =>
      rw [hrest] at hreturned
      cases hreturned
  | done value =>
      rw [hrest] at hreturned hstage
      obtain rfl := Option.some.inj hreturned
      obtain ⟨hkey, ttl, hverdict⟩ := hstage.eq_verdict hevent
      exact ⟨thread, List.mem_of_getElem? hthread, hkey, ttl, hverdict⟩

end Pool

/-- Whether a check has let its request pass. -/
def letsPass (pool : LimiterPool) (index : Nat) : Bool :=
  (returned pool index).any RateDecision.allowed

/-- A check of a period that is through has let its request pass exactly when its count is
within the limit. -/
theorem allowed_iff_count_le {key : String} {limit : UInt32}
    {earlier actions final : List LimiterAction} {during after : List (Nat × Event redisEffects)}
    (hperiod : Period ("gw:rl:" ++ key) earlier actions)
    (hduring : (limiterAfter (earlier ++ actions)).log = (limiterAfter earlier).log ++ during)
    (hfinal : (limiterAfter final).log = (limiterAfter earlier).log ++ during ++ after)
    (hlimit : ∀ thread ∈ (limiterAfter final).threads,
      thread.request.key = key → thread.request.limit = limit)
    (hfew : (countsOf ("gw:rl:" ++ key) during).length < 2 ^ 32)
    {entry : Nat × Int} (hentry : entry ∈ countsOf ("gw:rl:" ++ key) during)
    {decision : RateDecision} (hreturned : returned (limiterAfter final) entry.1 = some decision) :
    decision.allowed = decide (entry.2 ≤ (limit.toNat : Int)) := by
  obtain ⟨thread, hthread, hkey, ttl, rfl⟩ := returned_of_count hfinal hentry hreturned
  have hsame : thread.request.key = key := (LimitRequest.redisKey_inj hkey).symm
  have hcount : entry.2 ∈ (countsOf ("gw:rl:" ++ key) during).map Prod.snd :=
    List.mem_map_of_mem hentry
  rw [(counts_of_period hperiod hduring).1] at hcount
  obtain ⟨n, hn, hentry'⟩ := List.mem_map.mp hcount
  have hlt := List.mem_range.mp hn
  have hnat : (max ((n : Int) + 1) 0).toNat = n + 1 := by omega
  rw [LimitRequest.verdict, hlimit thread hthread hsame, ← hentry', hnat,
    decision_allowed (by omega)]
  apply decide_eq_decide.mpr
  omega

/-- **The limit is global.**  Take any run of checks against one server: any number of
instances, any interleaving, failing commands, dropped checks and keys that expire.
Between two expiries of a key, with fewer than `2 ^ 32` increments of it in between, at
most `limit` of the checks whose increment succeeded let their request pass, however the
run goes on; and when all of them are through, exactly the smaller one of their number
and `limit` do. -/
theorem redis_limit_is_global (key : String) (limit : UInt32)
    (earlier actions later : List LimiterAction) (during : List (Nat × Event redisEffects))
    (hperiod : Period ("gw:rl:" ++ key) earlier actions)
    (hduring : (limiterAfter (earlier ++ actions)).log = (limiterAfter earlier).log ++ during)
    (hlimit : ∀ thread ∈ (limiterAfter (earlier ++ actions ++ later)).threads,
      thread.request.key = key → thread.request.limit = limit)
    (hfew : (countsOf ("gw:rl:" ++ key) during).length < 2 ^ 32) :
    let checks := (countsOf ("gw:rl:" ++ key) during).map Prod.fst
    let final := limiterAfter (earlier ++ actions ++ later)
    checks.Nodup ∧ checks.countP (letsPass final) ≤ limit.toNat ∧
      ((∀ index ∈ checks, (returned final index).isSome = true) →
        checks.countP (letsPass final) = min checks.length limit.toNat) := by
  intro checks final
  obtain ⟨after, hfinal⟩ : ∃ after, final.log = (limiterAfter earlier).log ++ during ++ after := by
    obtain ⟨after, hafter⟩ := Pool.log_append limiterServer ∅ (earlier ++ actions) later
    exact ⟨after, by rw [← hduring]; exact hafter⟩
  have hallowed : ∀ entry ∈ countsOf ("gw:rl:" ++ key) during, ∀ decision,
      returned final entry.1 = some decision →
        decision.allowed = decide (entry.2 ≤ (limit.toNat : Int)) :=
    fun _ hentry _ hreturned =>
      allowed_iff_count_le hperiod hduring hfinal hlimit hfew hentry hreturned
  have hpass : checks.countP (letsPass final) =
      (countsOf ("gw:rl:" ++ key) during).countP (fun entry => letsPass final entry.1) :=
    List.countP_map
  have hwithin : (countsOf ("gw:rl:" ++ key) during).countP
      (fun entry => entry.2 ≤ (limit.toNat : Int)) = min checks.length limit.toNat := by
    have hcounts := countP_counts (countsOf ("gw:rl:" ++ key) during).length limit.toNat
    rw [← (counts_of_period hperiod hduring).1, List.countP_map] at hcounts
    rw [List.length_map]
    exact hcounts
  refine ⟨nodup_countsOf hfinal, ?_, ?_⟩
  · have hle : (countsOf ("gw:rl:" ++ key) during).countP (fun entry => letsPass final entry.1) ≤
        (countsOf ("gw:rl:" ++ key) during).countP
          (fun entry => entry.2 ≤ (limit.toNat : Int)) := by
      apply List.countP_mono_left
      intro entry hentry hpasses
      obtain ⟨decision, hreturned, hyes⟩ := (Option.any_eq_true _ _).mp hpasses
      rw [← hallowed entry hentry decision hreturned]
      exact hyes
    omega
  · intro hthrough
    rw [hpass, ← hwithin]
    apply List.countP_congr
    intro entry hentry
    obtain ⟨decision, hreturned⟩ :=
      Option.isSome_iff_exists.mp (hthrough entry.1 (List.mem_map_of_mem hentry))
    rw [letsPass, hreturned, Option.any_some, hallowed entry hentry decision hreturned]

/-- Two instances check one key, a step at a time; the expiry of the first one fails. -/
def twoInstances : List LimiterAction :=
  [.arrive ⟨"a", 1, 60000000000⟩, .arrive ⟨"a", 1, 60000000000⟩, .advance 0 {}, .advance 1 {},
    .advance 0 { failed := true }, .advance 1 {}, .advance 0 {}]

theorem twoInstances_period : Period "gw:rl:a" [] twoInstances := by
  refine ⟨rfl, fun before action after hsplit => ?_⟩
  have htakes : ∀ n < 7,
      ((limiterAfter (twoInstances.take n)).state.lookup "gw:rl:a").isSome = true →
        ((limiterAfter (twoInstances.take (n + 1))).state.lookup "gw:rl:a").isSome = true := by
    decide +kernel
  have hlength : before.length < 7 := by
    have := congrArg List.length hsplit
    simp only [List.length_append, List.length_cons] at this
    have hseven : twoInstances.length = 7 := rfl
    omega
  have hbefore : twoInstances.take before.length = before := by
    rw [hsplit, List.take_left]
  have hafter : twoInstances.take (before.length + 1) = before ++ [action] := by
    rw [hsplit, List.take_length_add_append]
    rfl
  have := htakes before.length hlength
  rw [hbefore, hafter] at this
  exact this

/-- Both are through, and one of them has let its request pass. -/
theorem redis_limit_is_global_twoInstances :
    [0, 1].countP (letsPass (limiterAfter twoInstances)) = 1 := by
  have hthreads : ∀ thread ∈ (limiterAfter twoInstances).threads, thread.request.limit = 1 := by
    decide +kernel
  have hcounts : countsOf "gw:rl:a" (limiterAfter twoInstances).log = [(0, 1), (1, 2)] := by
    decide +kernel
  obtain ⟨-, -, hexact⟩ := redis_limit_is_global "a" 1 [] twoInstances []
    (limiterAfter twoInstances).log twoInstances_period rfl
    (fun thread hthread _ => hthreads thread hthread)
    (by rw [show "gw:rl:" ++ "a" = "gw:rl:a" from rfl, hcounts]; decide)
  rw [show "gw:rl:" ++ "a" = "gw:rl:a" from rfl, hcounts] at hexact
  exact hexact (by decide +kernel)

end Gateway
end ApiGateway
