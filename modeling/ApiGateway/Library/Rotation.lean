import Mathlib.Algebra.Ring.Periodic
import Mathlib.Data.Nat.Count

/-!
# Going round a list

Entries are taken from a list in a circle, at consecutive positions from any start.  Every
full round takes each value as often as the list has it, wherever the round begins, so any
number of turns takes it at least as often as the full rounds in it and at most as often as
the rounds it is part of.
-/

namespace ApiGateway
namespace Library

open Function

theorem count_congr_of_lt {p q : Nat → Prop} [DecidablePred p] [DecidablePred q] {n : Nat}
    (h : ∀ j < n, p j ↔ q j) : Nat.count p n = Nat.count q n := by
  refine List.countP_congr fun j hj => ?_
  simpa using h j (List.mem_range.mp hj)

section Window

variable {p : Nat → Prop} [DecidablePred p] {period : Nat}

/-- One period has the same count wherever it begins. -/
theorem count_window_period (h : Periodic p period) (start : Nat) :
    Nat.count (fun j => p (start + j)) period = Nat.count p period := by
  have hfront := Nat.count_add p start period
  have hback := Nat.count_add p period start
  have hshift : Nat.count (fun j => p (period + j)) start = Nat.count p start := by
    refine count_congr_of_lt fun j _ => ?_
    rw [Nat.add_comm period j, h j]
  rw [hshift, Nat.add_comm period start] at hback
  omega

theorem count_window_rounds (h : Periodic p period) (start rounds : Nat) :
    Nat.count (fun j => p (start + j)) (rounds * period) = rounds * Nat.count p period := by
  induction rounds with
  | zero => simp
  | succ rounds ih =>
      have hlast : Nat.count (fun j => p (start + (rounds * period + j))) period =
          Nat.count p period := by
        simp only [← Nat.add_assoc]
        exact count_window_period h (start + rounds * period)
      rw [Nat.succ_mul, Nat.count_add, ih, hlast, Nat.succ_mul]

end Window

variable {α : Type} [DecidableEq α]

/-- The number of turns at which the value is taken, when `turns` entries are taken in a
circle from position `start` on. -/
def timesTaken (order : List α) (value : α) (start turns : Nat) : Nat :=
  Nat.count (fun j => order[(start + j) % order.length]? = some value) turns

/-- The positions of a list at which it has a value. -/
theorem count_getElem?_eq (order : List α) (value : α) :
    Nat.count (fun j => order[j]? = some value) order.length = order.count value := by
  induction order with
  | nil => rfl
  | cons head rest ih =>
      rw [List.length_cons, Nat.count_succ', List.count_cons]
      simp only [List.getElem?_cons_succ, List.getElem?_cons_zero, Option.some.injEq, beq_iff_eq]
      rw [ih]

/-- One round from the first position takes each value as often as the list has it. -/
theorem count_round (order : List α) (value : α) :
    Nat.count (fun j => order[j % order.length]? = some value) order.length =
      order.count value := by
  rw [← count_getElem?_eq]
  refine count_congr_of_lt fun j hj => ?_
  rw [Nat.mod_eq_of_lt hj]

/-- Full rounds take each value as often as the list has it, wherever they begin. -/
theorem timesTaken_rounds (order : List α) (value : α) (start rounds : Nat) :
    timesTaken order value start (rounds * order.length) = rounds * order.count value := by
  have hperiodic : Periodic (fun j => order[j % order.length]? = some value) order.length := by
    intro j
    simp only [Nat.add_mod_right]
  rw [← count_round order value]
  exact count_window_rounds hperiodic start rounds

theorem timesTaken_mono (order : List α) (value : α) (start : Nat) {turns more : Nat}
    (h : turns ≤ more) :
    timesTaken order value start turns ≤ timesTaken order value start more :=
  Nat.count_monotone _ h

/-- Any number of turns takes a value at least as often as the full rounds in it do, and at
most as often as the rounds that cover it. -/
theorem timesTaken_bounds {order : List α} (horder : order ≠ []) (value : α)
    (start turns : Nat) :
    turns / order.length * order.count value ≤ timesTaken order value start turns ∧
      timesTaken order value start turns ≤
        (turns + order.length - 1) / order.length * order.count value := by
  have hpos : 0 < order.length := List.length_pos_iff.mpr horder
  rw [← timesTaken_rounds order value start, ← timesTaken_rounds order value start]
  constructor
  · exact timesTaken_mono order value start (Nat.div_mul_le_self _ _)
  · apply timesTaken_mono order value start
    have hcover := Nat.div_add_mod (turns + order.length - 1) order.length
    have hrest := Nat.mod_lt (turns + order.length - 1) hpos
    rw [Nat.mul_comm]
    omega

end Library
end ApiGateway
