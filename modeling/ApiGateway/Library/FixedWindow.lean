import Mathlib.Data.Finset.Card
import Mathlib.Order.Interval.Finset.Nat
import ApiGateway.Library.CallRun

/-!
# Windows that begin with an arrival

Arrivals are counted in windows.  The first arrival begins a window; a later one belongs
to the current window, unless the length it asks for has passed since that window began,
and then it begins the next one.  Windows are therefore not aligned to the clock: they
are anchored at arrivals, and there may be a gap between two of them.

`visits` gives every arrival its window and its place in it.  At most `limit` arrivals
of one window have a place up to `limit`; when all arrivals ask for the same length, an
interval of that length meets at most two windows.
-/

namespace ApiGateway
namespace Library

/-- A set whose members have places from one to `limit`, no two the same one, has at most
`limit` members. -/
theorem card_le_of_places {α : Type} (members : Finset α) (limit : Nat) (place : α → Nat → Prop)
    (hplace : ∀ member ∈ members, ∃ n, place member n ∧ 1 ≤ n ∧ n ≤ limit)
    (hsingle : ∀ member ∈ members, ∀ other ∈ members, ∀ n, place member n → place other n →
      member = other) : members.card ≤ limit := by
  have hchoice : ∀ member, ∃ n, member ∈ members → place member n ∧ 1 ≤ n ∧ n ≤ limit := by
    intro member
    by_cases hmember : member ∈ members
    · obtain ⟨n, hn⟩ := hplace member hmember
      exact ⟨n, fun _ => hn⟩
    · exact ⟨0, fun h => absurd h hmember⟩
  choose placeOf hplaceOf using hchoice
  have hinto : ∀ member ∈ members, placeOf member ∈ Finset.Icc 1 limit :=
    fun member hmember => Finset.mem_Icc.mpr (hplaceOf member hmember).2
  have hinj : Set.InjOn placeOf members := by
    intro member hmember other hother hsame
    have hfirst := (hplaceOf member hmember).1
    rw [hsame] at hfirst
    exact hsingle member hmember other hother _ hfirst (hplaceOf other hother).1
  calc members.card ≤ (Finset.Icc 1 limit).card := Finset.card_le_card_of_injOn placeOf hinto hinj
    _ = limit := by rw [Nat.card_Icc, Nat.add_sub_cancel]

structure Arrival where
  time : Instant
  /-- How long a window lasts, for this arrival. -/
  length : Duration
  deriving DecidableEq, Repr

/-- An arrival in its window. -/
structure Visit where
  time : Instant
  /-- The number of windows that began before. -/
  window : Nat
  /-- When the window began. -/
  start : Instant
  /-- The place among the arrivals of the window, from one on. -/
  ordinal : Nat
  deriving DecidableEq, Repr

namespace Visit

/-- The place of an arrival, given the last one before it. -/
def next (last : Option Visit) (arrival : Arrival) : Visit :=
  match last with
  | none => { time := arrival.time, window := 0, start := arrival.time, ordinal := 1 }
  | some last =>
      if arrival.length ≤ arrival.time - last.start then
        { time := arrival.time, window := last.window + 1, start := arrival.time, ordinal := 1 }
      else
        { time := arrival.time, window := last.window, start := last.start
          ordinal := last.ordinal + 1 }

/-- The first visit has a smaller window, or a smaller place in the same window. -/
def Precedes (earlier later : Visit) : Prop :=
  earlier.window < later.window ∨
    (earlier.window = later.window ∧ earlier.ordinal < later.ordinal)

@[simp] theorem next_time (last : Option Visit) (arrival : Arrival) :
    (next last arrival).time = arrival.time := by
  unfold next
  split
  · rfl
  · split
    · rfl
    · rfl

theorem next_ordinal_pos (last : Option Visit) (arrival : Arrival) :
    0 < (next last arrival).ordinal := by
  unfold next
  split
  · exact Nat.one_pos
  · split
    · exact Nat.one_pos
    · exact Nat.succ_pos _

/-- A visit begins the next window, or is the next one of the window of the last. -/
theorem next_some_cases (last : Visit) (arrival : Arrival) :
    (arrival.length ≤ arrival.time - last.start ∧
        next (some last) arrival = ⟨arrival.time, last.window + 1, arrival.time, 1⟩) ∨
      (arrival.time - last.start < arrival.length ∧
        next (some last) arrival =
          ⟨arrival.time, last.window, last.start, last.ordinal + 1⟩) := by
  unfold next
  by_cases hover : arrival.length ≤ arrival.time - last.start
  · exact Or.inl ⟨hover, if_pos hover⟩
  · exact Or.inr ⟨Nat.not_le.mp hover, if_neg hover⟩

theorem precedes_next (last : Visit) (arrival : Arrival) :
    Precedes last (next (some last) arrival) := by
  rcases next_some_cases last arrival with ⟨-, hnext⟩ | ⟨-, hnext⟩
  · rw [hnext]
    exact Or.inl (Nat.lt_succ_self _)
  · rw [hnext]
    exact Or.inr ⟨rfl, Nat.lt_succ_self _⟩

theorem Precedes.trans {first second third : Visit} (h : Precedes first second)
    (h' : Precedes second third) : Precedes first third := by
  unfold Precedes at *
  omega

end Visit

/-- Every arrival in its window, in the order of arrival. -/
def visits (arrivals : List Arrival) : List Visit :=
  arrivals.foldl (fun placed arrival => placed ++ [Visit.next placed.getLast? arrival]) []

@[simp] theorem visits_nil : visits [] = [] := rfl

theorem visits_snoc (arrivals : List Arrival) (arrival : Arrival) :
    visits (arrivals ++ [arrival]) =
      visits arrivals ++ [Visit.next (visits arrivals).getLast? arrival] := by
  simp [visits]

/-- Later arrivals do not move a visit. -/
theorem mem_visits_append {arrivals : List Arrival} {visit : Visit}
    (h : visit ∈ visits arrivals) (later : List Arrival) :
    visit ∈ visits (arrivals ++ later) := by
  induction later using List.reverseRecOn with
  | nil => simpa using h
  | append_singleton later arrival ih =>
      rw [← List.append_assoc, visits_snoc]
      exact List.mem_append_left _ ih

theorem visits_ordinal_pos (arrivals : List Arrival) :
    ∀ visit ∈ visits arrivals, 0 < visit.ordinal := by
  induction arrivals using List.reverseRecOn with
  | nil => simp
  | append_singleton arrivals arrival ih =>
      rw [visits_snoc]
      intro visit hvisit
      rcases List.mem_append.mp hvisit with hold | hnew
      · exact ih visit hold
      · rw [List.mem_singleton.mp hnew]
        exact Visit.next_ordinal_pos _ _

/-- A window of no time has one visit. -/
theorem Visit.next_ordinal_of_zero (last : Option Visit) (time : Instant) :
    (Visit.next last ⟨time, 0⟩).ordinal = 1 := by
  cases last with
  | none => rfl
  | some last =>
      rcases Visit.next_some_cases last ⟨time, 0⟩ with ⟨-, hnext⟩ | ⟨hwithin, -⟩
      · rw [hnext]
      · exact absurd hwithin (Nat.not_lt_zero _)

/-- Arrivals at one instant share a window, when windows last some time. -/
theorem Visit.next_replicate (time : Instant) {length : Duration} (hlength : 0 < length)
    (n : Nat) :
    Visit.next (visits (List.replicate n ⟨time, length⟩)).getLast? ⟨time, length⟩ =
      ⟨time, 0, time, n + 1⟩ := by
  induction n with
  | zero => rfl
  | succ n ih =>
      rw [List.replicate_succ', visits_snoc, List.getLast?_concat, ih]
      rcases Visit.next_some_cases ⟨time, 0, time, n + 1⟩ ⟨time, length⟩ with ⟨hover, -⟩ |
        ⟨-, hnext⟩
      · rw [Nat.sub_self] at hover
        exact absurd hlength (Nat.not_lt.mpr hover)
      · exact hnext

/-- No place is beyond the number of arrivals. -/
theorem visits_ordinal_le (arrivals : List Arrival) :
    ∀ visit ∈ visits arrivals, visit.ordinal ≤ arrivals.length := by
  induction arrivals using List.reverseRecOn with
  | nil => simp
  | append_singleton arrivals arrival ih =>
      rw [visits_snoc, List.length_append, List.length_singleton]
      intro visit hvisit
      rcases List.mem_append.mp hvisit with hold | hnew
      · exact Nat.le_succ_of_le (ih visit hold)
      · rw [List.mem_singleton.mp hnew]
        cases hlast : (visits arrivals).getLast? with
        | none => exact Nat.succ_le_succ (Nat.zero_le _)
        | some last =>
            rcases Visit.next_some_cases last arrival with ⟨-, hnext⟩ | ⟨-, hnext⟩
            · rw [hnext]
              exact Nat.succ_le_succ (Nat.zero_le _)
            · rw [hnext]
              exact Nat.succ_le_succ (ih last (List.mem_of_getLast? hlast))

/-- A relation that every visit has to its successor, and that is inherited by the
successor, relates all visits in order. -/
theorem pairwise_visits_of_next {arrivals : List Arrival} {related : Visit → Visit → Prop}
    (hnext : ∀ before arrival rest last, arrivals = before ++ arrival :: rest →
      (visits before).getLast? = some last →
        related last (Visit.next (some last) arrival) ∧
          ∀ visit ∈ visits before, related visit last →
            related visit (Visit.next (some last) arrival)) :
    (visits arrivals).Pairwise related := by
  induction arrivals using List.reverseRecOn with
  | nil => simp
  | append_singleton arrivals arrival ih =>
      have hold : (visits arrivals).Pairwise related := by
        apply ih
        intro before earlier rest last hsplit hlast
        apply hnext before earlier (rest ++ [arrival]) last _ hlast
        rw [hsplit]
        simp
      rw [visits_snoc, List.pairwise_append]
      refine ⟨hold, List.pairwise_singleton _ _, ?_⟩
      intro visit hvisit new hnew
      rw [List.mem_singleton.mp hnew]
      -- A visit is the last one before the new one, or comes before the last one.
      obtain ⟨front, last, hfront⟩ : ∃ front last, visits arrivals = front ++ [last] :=
        ⟨_, _, (List.dropLast_append_getLast (List.ne_nil_of_mem hvisit)).symm⟩
      have hlast : (visits arrivals).getLast? = some last := by
        rw [hfront]
        simp
      obtain ⟨hself, hinherit⟩ := hnext arrivals arrival [] last rfl hlast
      rw [hlast]
      rw [hfront, List.pairwise_append] at hold
      have hmem := hvisit
      rw [hfront] at hmem
      rcases List.mem_append.mp hmem with hearlier | hequal
      · exact hinherit visit hvisit (hold.2.2 visit hearlier last List.mem_cons_self)
      · rw [List.mem_singleton.mp hequal]
        exact hself

theorem pairwise_precedes_visits (arrivals : List Arrival) :
    (visits arrivals).Pairwise Visit.Precedes := by
  apply pairwise_visits_of_next
  intro before arrival rest last _ _
  exact ⟨Visit.precedes_next last arrival,
    fun visit _ h => h.trans (Visit.precedes_next last arrival)⟩

/-- Strictly ordered visits of one window with places up to `limit` are at most
`limit`. -/
theorem length_le_of_precedes {placed : List Visit} (window limit : Nat)
    (horder : placed.Pairwise Visit.Precedes)
    (hplaces : ∀ visit ∈ placed, visit.window = window ∧ 0 < visit.ordinal ∧
      visit.ordinal ≤ limit) : placed.length ≤ limit := by
  have hnodup : (placed.map Visit.ordinal).Nodup := by
    rw [List.nodup_iff_pairwise_ne, List.pairwise_map]
    apply horder.imp_of_mem
    intro earlier later hearlier hlater hprecedes
    have hsame := (hplaces earlier hearlier).1.trans (hplaces later hlater).1.symm
    unfold Visit.Precedes at hprecedes
    omega
  have hordinals : ∀ ordinal ∈ (placed.map Visit.ordinal).toFinset,
      ∃ n, ordinal = n ∧ 1 ≤ n ∧ n ≤ limit := by
    intro ordinal hordinal
    rw [List.mem_toFinset] at hordinal
    obtain ⟨visit, hvisit, rfl⟩ := List.mem_map.mp hordinal
    exact ⟨_, rfl, (hplaces visit hvisit).2⟩
  calc placed.length = (placed.map Visit.ordinal).length := by rw [List.length_map]
    _ = (placed.map Visit.ordinal).toFinset.card := (List.toFinset_card_of_nodup hnodup).symm
    _ ≤ limit := card_le_of_places _ limit (fun ordinal n => ordinal = n) hordinals
      fun _ _ _ _ _ hfirst hsecond => hfirst.trans hsecond.symm

/-- Strictly ordered visits of two neighbouring windows with places up to `limit` are at most
twice `limit`. -/
theorem length_le_of_adjacent {placed : List Visit} (window limit : Nat)
    (horder : placed.Pairwise Visit.Precedes)
    (hplaces : ∀ visit ∈ placed, 0 < visit.ordinal ∧ visit.ordinal ≤ limit)
    (hwindows : ∀ visit ∈ placed, visit.window = window ∨ visit.window = window + 1) :
    placed.length ≤ 2 * limit := by
  have hone : ∀ one, (placed.filter (·.window = one)).length ≤ limit := by
    intro one
    apply length_le_of_precedes one limit (horder.filter _)
    intro visit hvisit
    obtain ⟨hmem, hwindow⟩ := List.mem_filter.mp hvisit
    exact ⟨of_decide_eq_true hwindow, hplaces visit hmem⟩
  have hrest : placed.filter (fun visit => !decide (visit.window = window)) =
      placed.filter (·.window = window + 1) := by
    apply List.filter_congr
    intro visit hvisit
    rcases hwindows visit hvisit with hsame | hnext
    · simp [hsame]
    · simp [hnext]
  have hsplit := List.length_eq_length_filter_add (l := placed)
    fun visit => decide (visit.window = window)
  rw [hrest] at hsplit
  have hcurrent := hone window
  have hfollowing := hone (window + 1)
  omega

theorem visits_time_mem {arrivals : List Arrival} :
    ∀ visit ∈ visits arrivals, visit.time ∈ arrivals.map Arrival.time := by
  induction arrivals using List.reverseRecOn with
  | nil => simp
  | append_singleton arrivals arrival ih =>
      intro visit hvisit
      rw [visits_snoc] at hvisit
      rw [List.map_append]
      rcases List.mem_append.mp hvisit with hold | hnew
      · exact List.mem_append_left _ (ih visit hold)
      · rw [List.mem_singleton.mp hnew, Visit.next_time]
        exact List.mem_append_right _ List.mem_cons_self

/-- No window begins after one of its visits, when time does not run backwards. -/
theorem visits_start_le {arrivals : List Arrival}
    (horder : (arrivals.map Arrival.time).Pairwise (· ≤ ·)) :
    ∀ visit ∈ visits arrivals, visit.start ≤ visit.time := by
  induction arrivals using List.reverseRecOn with
  | nil => simp
  | append_singleton arrivals arrival ih =>
      rw [List.map_append, List.pairwise_append] at horder
      intro visit hvisit
      rw [visits_snoc] at hvisit
      rcases List.mem_append.mp hvisit with hold | hnew
      · exact ih horder.1 visit hold
      · rw [List.mem_singleton.mp hnew, Visit.next_time]
        cases hlast : (visits arrivals).getLast? with
        | none => exact Nat.le_refl _
        | some last =>
            have hmem := List.mem_of_getLast? hlast
            have hpast := horder.2.2 last.time (visits_time_mem last hmem) arrival.time
              List.mem_cons_self
            rcases Visit.next_some_cases last arrival with ⟨-, hnext⟩ | ⟨-, hnext⟩
            · rw [hnext]
            · rw [hnext]
              exact Nat.le_trans (ih horder.1 last hmem) hpast

/-! ## Windows of one length -/

/-- The arrivals at the given instants, all with the same length. -/
def arrivalsAt (length : Duration) (times : List Instant) : List Arrival :=
  times.map fun time => ⟨time, length⟩

@[simp] theorem map_time_arrivalsAt (length : Duration) (times : List Instant) :
    (arrivalsAt length times).map Arrival.time = times := by
  simp [arrivalsAt, Function.comp_def]

/-- How far apart two visits in different windows are. -/
structure Visit.Apart (length : Duration) (earlier later : Visit) : Prop where
  window_le : earlier.window ≤ later.window
  began : earlier.window < later.window → earlier.time ≤ later.start
  twice : earlier.window + 1 < later.window → earlier.time + length ≤ later.start

/-- Where the window of a later visit is. -/
structure Visit.Follows (length : Duration) (earlier later : Visit) : Prop where
  window_le : earlier.window ≤ later.window
  same_start : earlier.window = later.window → earlier.start = later.start
  ended : earlier.window < later.window → earlier.start + length ≤ later.start

/-- Two visits in an interval of one length are in the same window or in adjacent ones. -/
theorem Visit.Apart.adjacent {length : Duration} {start : Instant} {earlier later : Visit}
    (h : Visit.Apart length earlier later) (hstart : start ≤ earlier.time)
    (hend : later.time < start + length) (hbegan : later.start ≤ later.time) :
    later.window = earlier.window ∨ later.window = earlier.window + 1 := by
  have hle := h.window_le
  by_contra hfar
  have htwice := h.twice (by omega)
  have hlate : start + length ≤ later.time :=
    calc start + length ≤ earlier.time + length := Nat.add_le_add_right hstart length
      _ ≤ later.start := htwice
      _ ≤ later.time := hbegan
  exact absurd hend (Nat.not_lt.mpr hlate)

section OneLength

variable {length : Duration} {times : List Instant} (horder : times.Pairwise (· ≤ ·))

include horder

/-- `pairwise_visits_of_next` for arrivals in order of time that ask for one length: the
last visit began before the new arrival, and no visit is after it. -/
theorem pairwise_visits_of_next_at {related : Visit → Visit → Prop}
    (hnext : ∀ (placed : List Visit) (last : Visit) (now : Instant), last.start ≤ now →
      (∀ visit ∈ placed, visit.time ≤ now) → last ∈ placed →
        related last (Visit.next (some last) ⟨now, length⟩) ∧
          ∀ visit ∈ placed, related visit last →
            related visit (Visit.next (some last) ⟨now, length⟩)) :
    (visits (arrivalsAt length times)).Pairwise related := by
  apply pairwise_visits_of_next
  intro before arrival rest last hsplit hlast
  obtain ⟨past, later, rfl, hbefore, hrest⟩ := List.map_eq_append_iff.mp hsplit
  obtain ⟨now, future, rfl, rfl, -⟩ := List.map_eq_cons_iff.mp hrest
  obtain rfl : arrivalsAt length past = before := hbefore
  rw [List.pairwise_append] at horder
  have hpast : ∀ visit ∈ visits (arrivalsAt length past), visit.time ≤ now :=
    fun visit hvisit => horder.2.2 _ (by simpa using visits_time_mem visit hvisit) now
      List.mem_cons_self
  have hmem := List.mem_of_getLast? hlast
  have hbegan : last.start ≤ last.time := visits_start_le (by simpa using horder.1) last hmem
  exact hnext _ last now (Nat.le_trans hbegan (hpast last hmem)) hpast hmem

/-- A window begins at least one length after the window before it. -/
theorem pairwise_apart_visits :
    (visits (arrivalsAt length times)).Pairwise (Visit.Apart length) := by
  apply pairwise_visits_of_next_at horder
  intro placed last now hbegan hpast hmem
  constructor
  · rcases Visit.next_some_cases last ⟨now, length⟩ with ⟨-, hnext⟩ | ⟨-, hnext⟩
    · rw [hnext]
      exact ⟨Nat.le_succ _, fun _ => hpast last hmem, fun h => absurd h (Nat.lt_irrefl _)⟩
    · rw [hnext]
      exact ⟨Nat.le_refl _, fun h => absurd h (Nat.lt_irrefl _),
        fun h => absurd h (Nat.not_lt.mpr (Nat.le_succ _))⟩
  · intro visit hvisit hapart
    rcases Visit.next_some_cases last ⟨now, length⟩ with ⟨hover, hnext⟩ | ⟨-, hnext⟩
    · -- A new window: whoever was in an older window than the last is one length away.
      rw [hnext]
      refine ⟨Nat.le_succ_of_le hapart.window_le, fun _ => hpast visit hvisit, fun htwice => ?_⟩
      have hearlier := hapart.began (Nat.lt_of_succ_lt_succ htwice)
      calc visit.time + length ≤ last.start + length := Nat.add_le_add_right hearlier length
        _ = length + last.start := Nat.add_comm _ _
        _ ≤ now := Nat.add_le_of_le_sub hbegan hover
    · rw [hnext]
      exact ⟨hapart.window_le, hapart.began, hapart.twice⟩

/-- A later window begins when the earlier one has ended. -/
theorem pairwise_follows_visits :
    (visits (arrivalsAt length times)).Pairwise (Visit.Follows length) := by
  apply pairwise_visits_of_next_at horder
  intro placed last now hbegan _ _
  constructor
  · rcases Visit.next_some_cases last ⟨now, length⟩ with ⟨hover, hnext⟩ | ⟨-, hnext⟩
    · rw [hnext]
      refine ⟨Nat.le_succ _, fun h => absurd h (Nat.succ_ne_self _).symm, fun _ => ?_⟩
      exact Nat.add_le_of_le_sub' hbegan hover
    · rw [hnext]
      exact ⟨Nat.le_refl _, fun _ => rfl, fun h => absurd h (Nat.lt_irrefl _)⟩
  · intro visit _ hfollows
    rcases Visit.next_some_cases last ⟨now, length⟩ with ⟨hover, hnext⟩ | ⟨-, hnext⟩
    · rw [hnext]
      have hle := hfollows.window_le
      refine ⟨Nat.le_succ_of_le hle, fun h => ?_, fun _ => ?_⟩
      · exact absurd h (Nat.ne_of_lt (Nat.lt_succ_of_le hle))
      · have hended : last.start + length ≤ now := Nat.add_le_of_le_sub' hbegan hover
        rcases Nat.lt_or_eq_of_le hle with hold | hsame
        · have hgap := hfollows.ended hold
          exact Nat.le_trans hgap hbegan
        · rw [hfollows.same_start hsame]
          exact hended
    · rw [hnext]
      exact ⟨hfollows.window_le, hfollows.same_start, hfollows.ended⟩

variable (length) in
/-- **An interval of one length meets at most two windows**, so it has at most twice
`limit` visits with a place up to `limit`. -/
theorem countP_interval_le (start : Instant) (limit : Nat) :
    (visits (arrivalsAt length times)).countP (fun visit =>
      start ≤ visit.time ∧ visit.time < start + length ∧ visit.ordinal ≤ limit) ≤ 2 * limit := by
  rw [List.countP_eq_length_filter]
  generalize hmet : (visits (arrivalsAt length times)).filter _ = met
  have hplaces : ∀ visit ∈ met, visit ∈ visits (arrivalsAt length times) ∧
      start ≤ visit.time ∧ visit.time < start + length ∧ visit.ordinal ≤ limit := by
    intro visit hvisit
    rw [← hmet] at hvisit
    obtain ⟨hmem, hplace⟩ := List.mem_filter.mp hvisit
    exact ⟨hmem, of_decide_eq_true hplace⟩
  have hprecedes : met.Pairwise Visit.Precedes :=
    hmet ▸ (pairwise_precedes_visits _).filter _
  have hapart : met.Pairwise (Visit.Apart length) :=
    hmet ▸ (pairwise_apart_visits horder).filter _
  cases met with
  | nil => exact Nat.zero_le _
  | cons first others =>
      -- Everybody is in the window of the first, or in the one after it.
      have hwindows : ∀ visit ∈ first :: others,
          visit.window = first.window ∨ visit.window = first.window + 1 := by
        intro visit hvisit
        rcases List.mem_cons.mp hvisit with rfl | hother
        · exact Or.inl rfl
        · obtain ⟨hmem, -, hend, -⟩ := hplaces visit hvisit
          exact ((List.pairwise_cons.mp hapart).1 visit hother).adjacent
            (hplaces first List.mem_cons_self).2.1 hend
              (visits_start_le (by simpa using horder) visit hmem)
      refine length_le_of_adjacent first.window limit hprecedes (fun visit hvisit => ?_) hwindows
      obtain ⟨hmem, -, -, hordinal⟩ := hplaces visit hvisit
      exact ⟨visits_ordinal_pos _ visit hmem, hordinal⟩

end OneLength

end Library
end ApiGateway
