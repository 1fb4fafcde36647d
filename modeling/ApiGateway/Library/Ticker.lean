import Mathlib.Data.Nat.ModEq
import Mathlib.Tactic.Linarith
import Mathlib.Order.Interval.Finset.Nat
import Mathlib.Data.List.Nodup

/-!
# A ticker that skips missed ticks

A ticker is due first when it is made and then once per period.  A tick that is taken late
is not made up for: the next one is due at the next whole number of periods from the start.
So each period counted from the start, a `slot`, sees at most one tick, however late the
ticks are taken, and that bounds the number of ticks in every span of time.

Instants and periods are numbers of one unit of time.
-/

namespace ApiGateway
namespace Library

structure Ticker where
  period : Nat
  period_pos : 0 < period
  deadline : Nat

namespace Ticker

/-- A ticker whose first tick is due at once. -/
def interval (period : Nat) (period_pos : 0 < period) (now : Nat) : Ticker :=
  ⟨period, period_pos, now⟩

def ready (ticker : Ticker) (now : Nat) : Bool := ticker.deadline ≤ now

/-- The ticker after a tick taken at the given instant. -/
def tick (ticker : Ticker) (now : Nat) : Ticker :=
  { ticker with deadline := now + ticker.period - (now - ticker.deadline) % ticker.period }

/-- The number of the period, counted from the start, that an instant lies in. -/
def slot (start : Nat) (period : Nat) (now : Nat) : Nat := (now - start) / period

/-- Where a ticker stands that was made at `start` and has ticked at the given instants:
its deadline is a whole number of periods from the start, the ticks lie in periods before
the deadline, and no two of them in the same. -/
structure OnSchedule (start : Nat) (ticks : List Nat) (ticker : Ticker) : Prop where
  aligned : ∃ periods, ticker.deadline = start + periods * ticker.period
  started : ∀ tick ∈ ticks, start ≤ tick
  before : ∀ tick ∈ ticks, tick < ticker.deadline
  slots : (ticks.map (slot start ticker.period)).Pairwise (· < ·)

/-- A tick that is taken late moves the deadline to the end of the period it is taken in. -/
theorem tick_deadline {start now : Nat} {ticks : List Nat} {ticker : Ticker}
    (h : OnSchedule start ticks ticker) (hready : ticker.ready now) :
    (ticker.tick now).deadline = start + (slot start ticker.period now + 1) * ticker.period := by
  obtain ⟨periods, hdeadline⟩ := h.aligned
  have hle : ticker.deadline ≤ now := of_decide_eq_true hready
  have hspan : now - start = (now - ticker.deadline) + periods * ticker.period := by omega
  have hslot : slot start ticker.period now =
      (now - ticker.deadline) / ticker.period + periods := by
    rw [slot, hspan, Nat.add_mul_div_right _ _ ticker.period_pos]
  have hdiv := Nat.div_add_mod' (now - ticker.deadline) ticker.period
  have hmod := Nat.mod_lt (now - ticker.deadline) ticker.period_pos
  show now + ticker.period - (now - ticker.deadline) % ticker.period = _
  rw [hslot, Nat.add_mul, Nat.add_mul, Nat.one_mul]
  omega

theorem lt_tick_deadline (ticker : Ticker) (now : Nat) :
    now < (ticker.tick now).deadline := by
  have hmod := Nat.mod_lt (now - ticker.deadline) ticker.period_pos
  show now < now + ticker.period - (now - ticker.deadline) % ticker.period
  omega

namespace OnSchedule

theorem interval (period : Nat) (period_pos : 0 < period) (now : Nat) :
    OnSchedule now [] (.interval period period_pos now) :=
  ⟨⟨0, by simp [Ticker.interval]⟩, by simp, by simp, by simp⟩

variable {start now : Nat} {ticks : List Nat} {ticker : Ticker}

/-- A tick lies in an earlier period than the deadline does. -/
theorem slot_lt (h : OnSchedule start ticks ticker) {tick : Nat} (htick : tick ∈ ticks)
    (hready : ticker.ready now) :
    slot start ticker.period tick < slot start ticker.period now := by
  obtain ⟨periods, hdeadline⟩ := h.aligned
  have hstarted := h.started tick htick
  have hbefore := h.before tick htick
  have hle : ticker.deadline ≤ now := of_decide_eq_true hready
  have hold : slot start ticker.period tick < periods :=
    Nat.div_lt_of_lt_mul (by rw [Nat.mul_comm]; omega)
  have hnew : periods ≤ slot start ticker.period now :=
    (Nat.le_div_iff_mul_le ticker.period_pos).mpr (by omega)
  exact lt_of_lt_of_le hold hnew

protected theorem tick (h : OnSchedule start ticks ticker) (hready : ticker.ready now) :
    OnSchedule start (ticks ++ [now]) (ticker.tick now) := by
  have hle : ticker.deadline ≤ now := of_decide_eq_true hready
  have hfrom : start ≤ now := by
    obtain ⟨periods, hdeadline⟩ := h.aligned
    omega
  refine ⟨⟨_, tick_deadline h hready⟩, fun tick htick => ?_, fun tick htick => ?_, ?_⟩
  · rcases List.mem_append.mp htick with hold | hnew
    · exact h.started tick hold
    · rwa [List.mem_singleton.mp hnew]
  · rcases List.mem_append.mp htick with hold | hnew
    · exact (h.before tick hold).trans_le (hle.trans (lt_tick_deadline ticker now).le)
    · rw [List.mem_singleton.mp hnew]
      exact lt_tick_deadline ticker now
  · rw [List.map_append, List.pairwise_append]
    refine ⟨h.slots, by simp, fun old hold new hnew => ?_⟩
    obtain ⟨tick, htick, rfl⟩ := List.mem_map.mp hold
    rw [List.mem_singleton.mp hnew]
    exact h.slot_lt htick hready

/-- Distinct numbers between two bounds are at most as many as there are numbers there. -/
theorem length_le_of_pairwise_lt {numbers : List Nat} (hpairwise : numbers.Pairwise (· < ·))
    {low high : Nat} (hlow : ∀ n ∈ numbers, low ≤ n) (hhigh : ∀ n ∈ numbers, n ≤ high) :
    numbers.length ≤ high + 1 - low := by
  have hnodup : numbers.Nodup := hpairwise.imp fun hlt => hlt.ne
  rw [← List.toFinset_card_of_nodup hnodup, ← Nat.card_Icc]
  refine Finset.card_le_card fun n hn => ?_
  have hmem := List.mem_toFinset.mp hn
  exact Finset.mem_Icc.mpr ⟨hlow n hmem, hhigh n hmem⟩

/-- The ticks in a span of time: one for each period the span reaches into. -/
theorem countP_le (h : OnSchedule start ticks ticker) (first last : Nat) :
    ticks.countP (fun tick => first ≤ tick ∧ tick ≤ last) ≤
      (last - first) / ticker.period + 2 := by
  rw [List.countP_eq_length_filter, ← List.length_map (slot start ticker.period)]
  set inside := ticks.filter fun tick => decide (first ≤ tick ∧ tick ≤ last) with hinside
  have hpairwise : (inside.map (slot start ticker.period)).Pairwise (· < ·) :=
    h.slots.sublist (List.filter_sublist.map _)
  have hlow : ∀ n ∈ inside.map (slot start ticker.period), slot start ticker.period first ≤ n := by
    intro n hn
    obtain ⟨tick, htick, rfl⟩ := List.mem_map.mp hn
    have hbounds := of_decide_eq_true (List.mem_filter.mp htick).2
    exact Nat.div_le_div_right (Nat.sub_le_sub_right hbounds.1 start)
  have hhigh : ∀ n ∈ inside.map (slot start ticker.period), n ≤ slot start ticker.period last := by
    intro n hn
    obtain ⟨tick, htick, rfl⟩ := List.mem_map.mp hn
    have hbounds := of_decide_eq_true (List.mem_filter.mp htick).2
    exact Nat.div_le_div_right (Nat.sub_le_sub_right hbounds.2 start)
  refine (length_le_of_pairwise_lt hpairwise hlow hhigh).trans ?_
  -- The last period is at most the length of the span, in periods, and one more after the first.
  have hspan : last - start ≤ (first - start) + (last - first) := by omega
  have hslots : slot start ticker.period last ≤
      slot start ticker.period first + (last - first) / ticker.period + 1 := by
    calc slot start ticker.period last
        ≤ ((first - start) + (last - first)) / ticker.period := Nat.div_le_div_right hspan
      _ ≤ slot start ticker.period first + (last - first) / ticker.period + 1 :=
          Nat.add_div_le_div_add_div_add_one _ _ _
  refine Nat.sub_le_iff_le_add.mpr ?_
  linarith

/-- All ticks so far: one for each period since the start, the running one included. -/
theorem length_le (h : OnSchedule start ticks ticker) (hnow : ∀ tick ∈ ticks, tick ≤ now) :
    ticks.length ≤ (now - start) / ticker.period + 1 := by
  rw [← List.length_map (slot start ticker.period)]
  refine length_le_of_pairwise_lt h.slots (fun _ _ => Nat.zero_le _) fun n hn => ?_
  obtain ⟨tick, htick, rfl⟩ := List.mem_map.mp hn
  exact Nat.div_le_div_right (Nat.sub_le_sub_right (hnow tick htick) start)

end OnSchedule
end Ticker
end Library
end ApiGateway
