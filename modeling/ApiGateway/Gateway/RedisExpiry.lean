import ApiGateway.Gateway.Redis

/-!
# Counters without an expiry

Only the check that is answered with the count one sets the expiry of a counter, by a
second command whose result is ignored.  When that command fails, or the check is dropped
before it is sent, the counter stays without an expiry, and no later check sets one: its
bucket counts on for ever.

`Attended` is the invariant that holds as long as neither happens: a counter without an
expiry has a check that is about to set one.
-/

namespace ApiGateway
namespace Gateway

open Library Program

/-- The check is about to send `EXPIRE` for the key. -/
def AboutToExpire (key : String) (thread : LimiterThread) : Prop :=
  ∃ secs next, thread.pending? = some ⟨.expire key secs, next⟩

/-- One of the checks is about to send `EXPIRE` for the key. -/
def Attending (key : String) (threads : List LimiterThread) : Prop :=
  ∃ (index : Nat) (thread : LimiterThread), threads[index]? = some thread ∧
    AboutToExpire key thread

/-- Every counter without an expiry has a check that is about to set one. -/
def Attended (pool : LimiterPool) : Prop :=
  ∀ key counter, pool.state.lookup key = some counter → counter.deadline = none →
    Attending key pool.threads

/-- Where no check on a key is in progress, the counter of the key, if there is one, has
an expiry. -/
def CountersExpire (pool : LimiterPool) : Prop :=
  ∀ key, (∀ thread ∈ pool.threads, thread.request.key = key → thread.pending? = none) →
    ∀ counter, pool.state.lookup ("gw:rl:" ++ key) = some counter →
      counter.deadline.isSome = true

/-- A check that is about to send `EXPIRE` is not dropped, and its command does not fail. -/
def LetsExpire (pool : LimiterPool) (action : LimiterAction) : Prop :=
  ∀ (index : Nat) (thread : LimiterThread) (key : String),
    pool.threads[index]? = some thread → AboutToExpire key thread →
      action ≠ .cancel index ∧ ∀ input, action = .advance index input → input.failed = false

/-! ## The invariant -/

/-- A check that increments sets the expiry next when it is answered with one. -/
theorem expires_after_first {request : LimitRequest} {history : List (Event redisEffects)}
    {key : String} {next : Option Int → Program redisEffects RateDecision}
    (hstage : request.Stage history (.call (S := redisEffects) (.incr key) next)) :
    ∃ secs rest, next (some 1) = .call (.expire key secs) rest := by
  generalize hrest : Program.call (S := redisEffects) (.incr key) next = rest at hstage
  cases hstage with
  | counting =>
      rw [request.program_eq] at hrest
      obtain ⟨hop, hnext⟩ := Program.call.inj hrest
      obtain rfl := RedisOp.incr.inj hop
      rw [eq_of_heq hnext]
      exact ⟨_, _, rfl⟩
  | failed => cases hrest
  | expiring => cases hrest
  | reporting count more hmore => cases hrest
  | answered count more hmore ttl => cases hrest

/-- The key of an `EXPIRE` is that of the check. -/
theorem aboutToExpire_key {thread : LimiterThread} {key : String}
    (hstage : thread.request.Stage thread.history thread.rest) (h : AboutToExpire key thread) :
    key = thread.request.redisKey := by
  obtain ⟨secs, next, hpending⟩ := h
  rw [Thread.rest_of_pending? hpending] at hstage
  generalize hrest : Program.call (S := redisEffects) (.expire key secs) next = rest at hstage
  generalize thread.history = history at hstage
  cases hstage with
  | counting =>
      rw [thread.request.program_eq] at hrest
      cases hrest
  | failed => cases hrest
  | expiring => exact (RedisOp.expire.inj (Program.call.inj hrest).1).1
  | reporting count more hmore => cases hrest
  | answered count more hmore ttl => cases hrest

theorem not_aboutToExpire {thread : LimiterThread} {op : RedisOp}
    {next : op.Res → Program redisEffects RateDecision} {key : String}
    (hpending : thread.pending? = some ⟨op, next⟩) (hop : ∀ secs, op ≠ .expire key secs) :
    ¬ AboutToExpire key thread := by
  rintro ⟨secs, next', hexpire⟩
  rw [hpending] at hexpire
  exact hop secs (Sigma.mk.inj (Option.some.inj hexpire)).1

/-- Who is about to set an expiry still is, after another check has been changed. -/
theorem Attending.set {threads : List LimiterThread} {key : String} {index : Nat}
    {thread : LimiterThread} (h : Attending key threads) (hthread : threads[index]? = some thread)
    (hother : ¬ AboutToExpire key thread) (changed : LimiterThread) :
    Attending key (threads.set index changed) := by
  obtain ⟨index', thread', hthread', habout⟩ := h
  have hne : index ≠ index' := by
    rintro rfl
    obtain rfl := Option.some.inj (hthread.symm.trans hthread')
    exact hother habout
  exact ⟨index', thread', by rw [List.getElem?_set_ne hne]; exact hthread', habout⟩

/-- A counter without an expiry after a command was there before, and not the one that got
its expiry now; or the command is an `INCR` that has made it. -/
theorem noDeadline_redisAnswer {input : RedisInput} {store : RedisStore} {op : RedisOp}
    (hexpires : ∀ key secs, op = .expire key secs → input.failed = false) {key : String}
    {counter : RedisCounter} (hcounter : (redisAnswer input store op).2.lookup key = some counter)
    (hnone : counter.deadline = none) :
    ((∃ old, store.lookup key = some old ∧ old.deadline = none) ∧ ∀ secs, op ≠ .expire key secs) ∨
      (op = .incr key ∧ input.failed = false ∧ store.lookup key = none) := by
  cases op with
  | ttl other =>
      rw [redisAnswer_ttl] at hcounter
      exact Or.inl ⟨⟨counter, hcounter, hnone⟩, fun _ => RedisOp.noConfusion⟩
  | expire other secs =>
      rw [redisAnswer_expire (hexpires other secs rfl)] at hcounter
      by_cases hkey : key = other
      · -- The key of the command has its expiry now, or is gone.
        subst hkey
        rcases Redis.lookup_expire_self store input.now key secs with hgone | ⟨old, -, hafter⟩
        · rw [hgone] at hcounter
          cases hcounter
        · rw [hafter] at hcounter
          obtain rfl := Option.some.inj hcounter
          cases hnone
      · rw [Redis.lookup_expire_ne store input.now secs hkey] at hcounter
        refine Or.inl ⟨⟨counter, hcounter, hnone⟩, fun secs' hop => ?_⟩
        exact hkey (RedisOp.expire.inj hop).1.symm
  | incr other =>
      have hincr : ∀ secs, RedisOp.incr other ≠ .expire key secs := fun _ => RedisOp.noConfusion
      cases hfailed : input.failed with
      | true =>
          rw [redisAnswer_of_failed hfailed] at hcounter
          exact Or.inl ⟨⟨counter, hcounter, hnone⟩, hincr⟩
      | false =>
          rw [redisAnswer_incr hfailed] at hcounter
          by_cases hkey : key = other
          · subst hkey
            rw [Redis.lookup_incr_self] at hcounter
            obtain rfl := Option.some.inj hcounter
            cases hold : store.lookup key with
            | some old =>
                rw [hold] at hnone
                exact Or.inl ⟨⟨old, rfl, hnone⟩, hincr⟩
            | none => exact Or.inr ⟨rfl, rfl, rfl⟩
          · rw [Redis.lookup_incr_ne store hkey] at hcounter
            exact Or.inl ⟨⟨counter, hcounter, hnone⟩, hincr⟩

/-- A command keeps the invariant, unless it is an `EXPIRE` that fails. -/
theorem attending_call {pool : LimiterPool} (h : Attended pool) {index : Nat}
    {thread changed : LimiterThread} {op : RedisOp}
    {next : op.Res → Program redisEffects RateDecision} {input : RedisInput}
    (hthread : pool.threads[index]? = some thread) (hpending : thread.pending? = some ⟨op, next⟩)
    (hstage : thread.request.Stage thread.history thread.rest)
    (hexpires : ∀ key secs, op = .expire key secs → input.failed = false)
    (hrest : changed.rest = next (redisAnswer input pool.state op).1)
    (hrunning : changed.dropped = false) {key : String} {counter : RedisCounter}
    (hcounter : (redisAnswer input pool.state op).2.lookup key = some counter)
    (hnone : counter.deadline = none) :
    Attending key (pool.threads.set index changed) := by
  rcases noDeadline_redisAnswer hexpires hcounter hnone with
    ⟨⟨old, hold, hdeadline⟩, hop⟩ | ⟨rfl, hdone, habsent⟩
  · -- A counter that was there before has its check already, and that is not the present one.
    exact (h key old hold hdeadline).set hthread (not_aboutToExpire hpending hop) changed
  · -- A new counter: the present check is answered with one.
    have hfirst : (redisAnswer input pool.state (.incr key)).1 = some 1 := by
      simp [redisAnswer, hdone, Redis.incr, habsent]
    rw [hfirst] at hrest
    rw [Thread.rest_of_pending? hpending] at hstage
    obtain ⟨secs, rest, hexpire⟩ := expires_after_first hstage
    have hlt : index < pool.threads.length := (List.getElem?_eq_some_iff.mp hthread).1
    refine ⟨index, changed, List.getElem?_set_self hlt, secs, rest, ?_⟩
    unfold Thread.pending?
    rw [hrunning, hrest, hexpire]

theorem attended_step {actions : List LimiterAction} (h : Attended (limiterAfter actions))
    {action : LimiterAction} (hlets : LetsExpire (limiterAfter actions) action) :
    Attended ((limiterAfter actions).step limiterServer action) := by
  intro key counter hcounter hnone
  rcases Pool.step_action_cases limiterServer (limiterAfter actions) action with
    ⟨request, -, hpool⟩ | ⟨index, thread, op, next, input, haction, hthread, hpending, hpool⟩ |
    ⟨index, thread, op, next, haction, hthread, -, -, hpool⟩ | ⟨expiry, -, hpool⟩ | hpool
  · rw [hpool] at hcounter ⊢
    obtain ⟨index, thread, hthread, habout⟩ := h key counter hcounter hnone
    have hlt := (List.getElem?_eq_some_iff.mp hthread).1
    exact ⟨index, thread, by rw [List.getElem?_append_left hlt]; exact hthread, habout⟩
  · rw [hpool] at hcounter ⊢
    have hexpires : ∀ key secs, op = .expire key secs → input.failed = false := by
      rintro key secs rfl
      exact (hlets index thread key hthread ⟨secs, next, hpending⟩).2 input haction
    have hrunning : thread.dropped = false := Thread.dropped_of_pending? hpending
    refine attending_call h hthread hpending (stage_after actions hthread) hexpires rfl ?_ hcounter
      hnone
    exact hrunning
  · rw [hpool] at hcounter ⊢
    have hother : ¬ AboutToExpire key thread :=
      fun habout => (hlets index thread key hthread habout).1 haction
    exact (h key counter hcounter hnone).set hthread hother _
  · rw [hpool] at hcounter ⊢
    have hcounter' : ((limiterAfter actions).state.erase expiry.key).lookup key = some counter :=
      hcounter
    have hkey : key ≠ expiry.key := by
      rintro rfl
      rw [AList.lookup_erase] at hcounter'
      cases hcounter'
    rw [AList.lookup_erase_ne hkey] at hcounter'
    exact h key counter hcounter' hnone
  · rw [hpool] at hcounter ⊢
    exact h key counter hcounter hnone

theorem attended_after {actions : List LimiterAction}
    (hlets : ∀ before action after, actions = before ++ action :: after →
      LetsExpire (limiterAfter before) action) : Attended (limiterAfter actions) := by
  induction actions using List.reverseRecOn with
  | nil =>
      intro key counter hcounter
      cases hcounter
  | append_singleton actions action ih =>
      have hsnoc : limiterAfter (actions ++ [action]) =
          (limiterAfter actions).step limiterServer action :=
        Pool.after_snoc limiterServer ∅ actions action
      rw [hsnoc]
      apply attended_step _ (hlets actions action [] rfl)
      apply ih
      intro before earlier after hsplit
      apply hlets before earlier (after ++ [action])
      rw [hsplit]
      simp

/-- **No counter stays without an expiry**, as long as no check is dropped when it is about
to send `EXPIRE`, and no `EXPIRE` fails: in every state of such a run in which no check on
a key is in progress, the counter of the key has an expiry. -/
theorem counters_expire (actions : List LimiterAction)
    (hlets : ∀ before action after, actions = before ++ action :: after →
      LetsExpire (limiterAfter before) action) : CountersExpire (limiterAfter actions) := by
  intro key hidle counter hcounter
  cases hdeadline : counter.deadline with
  | some deadline => rfl
  | none =>
      obtain ⟨index, thread, hthread, habout⟩ := attended_after hlets _ counter hcounter hdeadline
      have hkey := aboutToExpire_key (stage_after actions hthread) habout
      have hsame : thread.request.key = key := (LimitRequest.redisKey_inj hkey).symm
      obtain ⟨secs, next, hpending⟩ := habout
      rw [hidle thread (List.mem_of_getElem? hthread) hsame] at hpending
      cases hpending

/-- One check of a key, with a window of a minute. -/
def minuteCheck : LimiterAction := .arrive ⟨"a", 1, 60000000000⟩

def completeRun : List LimiterAction :=
  [minuteCheck, .advance 0 {}, .advance 0 {}, .advance 0 {}]

/-- A check that runs to its end leaves a counter, with an expiry. -/
theorem counters_expire_complete :
    ((limiterAfter completeRun).state.lookup "gw:rl:a").isSome = true ∧
      CountersExpire (limiterAfter completeRun) := by
  refine ⟨rfl, counters_expire completeRun ?_⟩
  intro before action after hsplit index thread key _ _
  have hmem : action ∈ completeRun := by
    rw [hsplit]
    exact List.mem_append_right _ List.mem_cons_self
  constructor
  · rintro rfl
    simp [completeRun, minuteCheck] at hmem
  · rintro input rfl
    simp only [completeRun, minuteCheck, List.mem_cons, reduceCtorEq, Action.advance.injEq,
      List.not_mem_nil, or_false, false_or, or_self] at hmem
    rw [hmem.2]

/-- The expiry is not set when the check is dropped after its increment, and not when
`EXPIRE` fails. -/
theorem counter_without_expiry :
    ¬ CountersExpire (limiterAfter [minuteCheck, .advance 0 {}, .cancel 0]) ∧
      ¬ CountersExpire (limiterAfter
        [minuteCheck, .advance 0 {}, .advance 0 { failed := true }, .advance 0 {}]) := by
  constructor
  · intro h
    have hexpiry := h "a" (by decide +kernel) ⟨1, none⟩ rfl
    cases hexpiry
  · intro h
    have hexpiry := h "a" (by decide +kernel) ⟨1, none⟩ rfl
    cases hexpiry

end Gateway
end ApiGateway
