import Mathlib.Data.List.Perm.Basic
import ApiGateway.Gateway.ActiveLoad
import ApiGateway.Gateway.SoloPick

/-!
# Balance by least connections

A sequential run on one balancer: picks, drops of guards, and other things that happen to
the gateway and leave the active counts alone, in any order.  The active count of every
upstream is then its number of live guards, so least connections chooses by live guards.
With every upstream eligible, nothing excluded and nothing dropped the counts never differ
by more than one.
-/

namespace ApiGateway
namespace Gateway

open Library Core Program

/-- The state of the gateway, and the upstreams whose guards are live, in the order in which
they were taken. -/
structure Floor where
  world : World
  guards : List Nat

/-- Something that happens beside picks and drops.  Only these change active counts. -/
structure Beside (id : RouteId) where
  change : World → World
  keepsLoad : ∀ world index, (change world).load id index = world.load id index

inductive Turn (id : RouteId) where
  | pick (exclude : List Nat) (inputs : Nat → Input)
  /-- The guard at the position among the live ones is dropped. -/
  | drop (position : Nat) (input : Input)
  | beside (other : Beside id)

namespace Floor

/-- One pick on the floor, run alone. -/
def picked (balancer : Balancer) (id : RouteId) (floor : Floor) (exclude : List Nat)
    (inputs : Nat → Input) : Execution effects World (Option (Nat × Upstream)) :=
  (balancer.pick id exclude).exec interpreter inputs floor.world

def step (balancer : Balancer) (id : RouteId) (floor : Floor) : Turn id → Floor
  | .pick exclude inputs =>
      let run := floor.picked balancer id exclude inputs
      { world := run.state, guards := floor.guards ++ (run.value.map Prod.fst).toList }
  | .drop position input =>
      match floor.guards[position]? with
      | none => floor
      | some index =>
          { world := (World.answer input floor.world (.guardDrop ⟨id, index⟩)).2
            guards := floor.guards.eraseIdx position }
  | .beside other => { floor with world := other.change floor.world }

/-- The floor after a run of turns, starting with no guards. -/
def after (balancer : Balancer) (id : RouteId) (world : World) (turns : List (Turn id)) : Floor :=
  run (fun floor turn => ((), floor.step balancer id turn)) ⟨world, []⟩ turns

theorem after_snoc (balancer : Balancer) (id : RouteId) (world : World) (turns : List (Turn id))
    (turn : Turn id) :
    after balancer id world (turns ++ [turn]) =
      (after balancer id world turns).step balancer id turn :=
  run_append _ _ _ _

end Floor

/-! ## Active counts -/

theorem active_of_leavesGuards {op : Op} (h : LeavesGuards op) (upstream : UpstreamId)
    (cell : UpstreamCell) : (World.cellAfter upstream cell op).active = cell.active := by
  cases op with
  | guardNew _ | guardDrop _ => cases h
  | allowAt _ _ | recordSuccess _ | recordFailureAt _ _ _ =>
      simp only [World.cellAfter]
      split <;> rfl
  | _ => rfl

/-- The search for an upstream counts nothing. -/
theorem pickIndex_keepsActive {permitted : Input → Prop} (balancer : Balancer) (id : RouteId)
    (exclude : List Nat) (world : World) :
    Alone permitted world (balancer.pickIndex id exclude) fun _ _ searched =>
      ∀ upstream, (searched.upstream upstream).active = (world.upstream upstream).active := by
  rintro inputs start - rfl
  refine exec_related (fun before after : World => ∀ upstream,
    (after.upstream upstream).active = (before.upstream upstream).active) (fun _ _ => rfl)
    (fun _ _ _ hfirst hsecond upstream => (hsecond upstream).trans (hfirst upstream))
    fun event hevent n before upstream => ?_
  have hleaves := (pickIndex_leavesGuards balancer id exclude).of_mem
    (exec_returns interpreter _ inputs start) hevent
  rw [World.upstream_answer]
  exact active_of_leavesGuards hleaves upstream _

/-- A pick counts one request on the upstream it picks. -/
theorem load_picked (balancer : Balancer) (id : RouteId) (floor : Floor) (exclude : List Nat)
    (inputs : Nat → Input) (index : Nat) :
    (floor.picked balancer id exclude inputs).state.load id index = floor.world.load id index +
      ((floor.picked balancer id exclude inputs).value.map Prod.fst).toList.count index := by
  have hsearch : Alone (fun _ => True) floor.world (balancer.pickIndex id exclude)
      fun _ _ searched => ∀ upstream,
        (searched.upstream upstream).active = (floor.world.upstream upstream).active :=
    pickIndex_keepsActive balancer id exclude floor.world
  obtain ⟨searched, hactive, hcounted⟩ :=
    pick_alone hsearch inputs floor.world (fun _ => trivial) rfl
  unfold World.load Floor.picked
  rw [hcounted.cells]
  generalize ((balancer.pick id exclude).exec interpreter inputs floor.world).value.map
    Prod.fst = choice
  cases choice with
  | none => simp [hactive]
  | some chosen =>
      by_cases heq : chosen = index
      · simp [heq, hactive]
      · simp [heq, hactive]

theorem load_guardDrop (input : Input) (world : World) (id : RouteId) (dropped index : Nat) :
    (World.answer input world (.guardDrop ⟨id, dropped⟩)).2.load id index =
      world.load id index - if dropped = index then 1 else 0 := by
  unfold World.load
  rw [World.upstream_answer]
  simp only [World.cellAfter]
  by_cases heq : dropped = index
  · simp [heq]
  · simp [heq]

/-- The active counts are the numbers of live guards. -/
def Floor.Counts (id : RouteId) (floor : Floor) : Prop :=
  ∀ index, floor.world.load id index = floor.guards.count index

theorem Floor.Counts.step {balancer : Balancer} {id : RouteId} {floor : Floor}
    (h : floor.Counts id) (turn : Turn id) : (floor.step balancer id turn).Counts id := by
  intro index
  cases turn with
  | pick exclude inputs =>
      have hload := load_picked balancer id floor exclude inputs index
      simp only [Floor.step, List.count_append]
      rw [hload, h index]
      push_cast
      rfl
  | drop position input =>
      simp only [Floor.step]
      split
      · exact h index
      · rename_i dropped hdropped
        obtain ⟨hlt, rfl⟩ := List.getElem?_eq_some_iff.mp hdropped
        have hcount := (List.getElem_cons_eraseIdx_perm hlt).count_eq index
        rw [List.count_cons] at hcount
        simp only [beq_iff_eq] at hcount ⊢
        rw [load_guardDrop, h index]
        split at hcount
        · rename_i heq
          rw [if_pos heq]
          omega
        · rename_i hne
          rw [if_neg hne]
          omega
  | beside other => exact (other.keepsLoad floor.world index).trans (h index)

theorem Floor.counts_after (balancer : Balancer) (id : RouteId) {world : World}
    (hidle : ∀ index, world.load id index = 0) (turns : List (Turn id)) :
    (Floor.after balancer id world turns).Counts id :=
  run_induction (fun _ => True) (fun _ (floor : Floor) => floor.Counts id)
    (fun _ _ _ => trivial) (fun index => by simpa using hidle index) (fun _ _ turn _ h => h.step turn) turns trivial

/-! ## The choice -/

/-- The upstream is one of the balancer's, not excluded, and admits a request at its
instant. -/
def World.EligibleAt (world : World) (balancer : Balancer) (id : RouteId) (exclude : List Nat)
    (clock : Nat → Instant) (index : Nat) : Prop :=
  index < balancer.upstreams.length ∧ index ∉ exclude ∧
    world.admits ⟨id, index⟩ (clock index) = true

/-- The pick chose the smallest index with the fewest live guards among the upstreams that
were eligible when they were tested, and nothing only if there is none. -/
structure Floor.ChoseFewest (balancer : Balancer) (id : RouteId) (floor : Floor)
    (exclude : List Nat) (final : World) (choice : Option Nat) (clock : Nat → Instant) :
    Prop where
  between : ∀ index < balancer.upstreams.length, index ∉ exclude →
    floor.world.now ≤ clock index ∧ clock index ≤ final.now
  fewest : ∀ index ∈ choice, floor.world.EligibleAt balancer id exclude clock index ∧
    ∀ other, floor.world.EligibleAt balancer id exclude clock other →
      floor.guards.count index < floor.guards.count other ∨
        (floor.guards.count index = floor.guards.count other ∧ index ≤ other)
  nothing : choice = none → ∀ index, ¬ floor.world.EligibleAt balancer id exclude clock index

theorem Floor.Counts.choseFewest {balancer : Balancer} {id : RouteId} {floor : Floor}
    (h : floor.Counts id) (hstrategy : balancer.strategy = .leastConnections)
    (exclude : List Nat) (inputs : Nat → Input) :
    ∃ clock, floor.ChoseFewest balancer id exclude
      (floor.picked balancer id exclude inputs).state
      ((floor.picked balancer id exclude inputs).value.map Prod.fst) clock := by
  obtain ⟨searched, clock, hsurvey, hchoice, hcounted⟩ :=
    pick_surveyed hstrategy id exclude floor.world fun n => Nat.zero_le (inputs n).elapsed
  have hpassing : ∀ {index}, floor.world.EligibleAt balancer id exclude clock index ↔
      index ∈ passing floor.world id exclude clock (List.range balancer.upstreams.length) := by
    intro index
    rw [mem_passing, List.mem_range]
    rfl
  refine ⟨clock, fun index hlt hfresh => ?_, fun index hindex => ?_, fun hnone index helig => ?_⟩
  · have hbetween := hsurvey.between index (List.mem_range.mpr hlt) hfresh
    exact ⟨hbetween.1, hbetween.2.trans hcounted.now_le⟩
  · obtain ⟨hmem, hfirst⟩ := precedes_of_argmin (hchoice.symm.trans hindex)
    refine ⟨hpassing.mpr hmem, fun other hother => ?_⟩
    by_cases hsame : other = index
    · rw [hsame]
      exact Or.inr ⟨rfl, Nat.le_refl _⟩
    · have hprecedes := hfirst other (hpassing.mp hother) hsame
      unfold World.Precedes at hprecedes
      rw [h index, h other] at hprecedes
      omega
  · have hempty := List.argmin_eq_none.mp (hchoice.symm.trans hnone)
    have hmem := hpassing.mp helig
    rw [hempty] at hmem
    cases hmem

/-! ## Balance -/

/-- No two upstreams differ by more than one live guard. -/
def Floor.Balanced (balancer : Balancer) (floor : Floor) : Prop :=
  ∀ index < balancer.upstreams.length, ∀ other < balancer.upstreams.length,
    floor.guards.count index ≤ floor.guards.count other + 1

/-- A turn that drops nothing, and when it picks, excludes nothing and finds every upstream
eligible. -/
def Floor.Undisturbed (balancer : Balancer) (id : RouteId) (floor : Floor) : Turn id → Prop
  | .pick exclude _ => exclude = [] ∧ ∀ index < balancer.upstreams.length,
      floor.world.admits ⟨id, index⟩ floor.world.now = true
  | .drop _ _ => False
  | .beside _ => True

/-- The chosen upstream has no more guards than any other, so one more keeps the balance. -/
theorem Floor.Balanced.step {balancer : Balancer} {id : RouteId} {floor : Floor}
    (hbalanced : floor.Balanced balancer) (hcounts : floor.Counts id)
    (hstrategy : balancer.strategy = .leastConnections) {turn : Turn id}
    (hturn : floor.Undisturbed balancer id turn) :
    (floor.step balancer id turn).Balanced balancer := by
  cases turn with
  | drop position input => cases hturn
  | beside other => exact hbalanced
  | pick exclude inputs =>
      obtain ⟨rfl, hadmits⟩ := hturn
      obtain ⟨clock, hchose⟩ := hcounts.choseFewest hstrategy [] inputs
      have heligible : ∀ index < balancer.upstreams.length,
          floor.world.EligibleAt balancer id [] clock index := by
        intro index hlt
        have hlater := (hchose.between index hlt List.not_mem_nil).1
        exact ⟨hlt, List.not_mem_nil, World.admits_mono (hadmits index hlt) hlater⟩
      intro index hindex other hother
      simp only [Floor.step, List.count_append]
      cases hchoice : (floor.picked balancer id [] inputs).value.map Prod.fst with
      | none => simpa using hbalanced index hindex other hother
      | some chosen =>
          have hfewest := (hchose.fewest chosen hchoice).2 other (heligible other hother)
          have hbefore := hbalanced index hindex other hother
          by_cases hpicked : chosen = index
          · subst hpicked
            simp only [Option.toList_some, List.count_singleton_self]
            omega
          · have hnone : [chosen].count index = 0 :=
              List.count_eq_zero.mpr fun hmem => hpicked (List.mem_singleton.mp hmem).symm
            simp only [Option.toList_some, hnone]
            omega

theorem Floor.balanced_after {balancer : Balancer} {id : RouteId}
    (hstrategy : balancer.strategy = .leastConnections) {world : World}
    (hidle : ∀ index, world.load id index = 0) (turns : List (Turn id))
    (hturns : ∀ before turn rest, turns = before ++ turn :: rest →
      (Floor.after balancer id world before).Undisturbed balancer id turn) :
    (Floor.after balancer id world turns).Balanced balancer := by
  induction turns using List.reverseRecOn with
  | nil => exact fun index _ other _ => Nat.zero_le _
  | append_singleton turns turn ih =>
      rw [Floor.after_snoc]
      have hbefore := ih fun before other rest heq =>
        hturns before other (rest ++ [turn]) (by simp [heq])
      exact hbefore.step (Floor.counts_after balancer id hidle turns) hstrategy
        (hturns turns turn [] rfl)

/-- **Least connections balances.**  In every sequential run on a balancer that starts idle,
with picks, drops and other events in any order: the active count of each upstream is its
number of live guards; every pick by least connections chooses the smallest index with the
fewest live guards among the upstreams that are not excluded and eligible when they are
tested; and when every pick excludes nothing and finds all upstreams eligible and nothing
is dropped, the active counts of two upstreams never differ by more than one. -/
theorem least_connections_balances (balancer : Balancer) (id : RouteId) (world : World)
    (hidle : ∀ index, world.load id index = 0) (turns : List (Turn id)) :
    (∀ index, (Floor.after balancer id world turns).world.load id index =
        (Floor.after balancer id world turns).guards.count index) ∧
      (balancer.strategy = .leastConnections → ∀ exclude inputs,
        ∃ clock, (Floor.after balancer id world turns).ChoseFewest balancer id exclude
          ((Floor.after balancer id world turns).picked balancer id exclude inputs).state
          (((Floor.after balancer id world turns).picked balancer id exclude inputs).value.map
            Prod.fst) clock) ∧
      (balancer.strategy = .leastConnections →
        (∀ before turn rest, turns = before ++ turn :: rest →
          (Floor.after balancer id world before).Undisturbed balancer id turn) →
        ∀ index < balancer.upstreams.length, ∀ other < balancer.upstreams.length,
          (Floor.after balancer id world turns).world.load id index ≤
            (Floor.after balancer id world turns).world.load id other + 1) := by
  have hcounts := Floor.counts_after balancer id hidle turns
  refine ⟨hcounts, fun hstrategy exclude inputs => hcounts.choseFewest hstrategy exclude inputs,
    fun hstrategy hturns index hindex other hother => ?_⟩
  have hbalanced := Floor.balanced_after hstrategy hidle turns hturns index hindex other hother
  rw [hcounts index, hcounts other]
  omega

/-- Two upstreams by least connections. -/
def twoByLoad : Balancer :=
  .fromRoute
    { name := "by-load", «matches» := { pathPrefix := "/" }, strategy := .leastConnections
      upstreams := [{ url := "http://a" }, { url := "http://b" }] }

/-- Three picks in a row. -/
def threePicks : List (Turn 0) := List.replicate 3 (.pick [] fun _ => {})

theorem undisturbed_threePicks : ∀ before turn rest, threePicks = before ++ turn :: rest →
    (Floor.after twoByLoad 0 World.initial before).Undisturbed twoByLoad 0 turn := by
  intro before turn rest hsplit
  obtain ⟨hlength, hbefore, hrest⟩ := List.append_eq_replicate_iff.mp hsplit.symm
  have hturn : turn = .pick [] fun _ => {} :=
    List.eq_of_mem_replicate (hrest ▸ List.mem_cons_self)
  rw [List.length_cons] at hlength
  rw [hturn, hbefore]
  refine ⟨rfl, ?_⟩
  have hlt : before.length < 3 := by omega
  generalize before.length = count at hlt
  revert count
  decide +kernel

/-- Three picks put two requests on the first upstream and one on the second. -/
theorem least_connections_balances_three_picks :
    (Floor.after twoByLoad 0 World.initial threePicks).guards = [0, 1, 0] ∧
      (Floor.after twoByLoad 0 World.initial threePicks).world.load 0 0 ≤
        (Floor.after twoByLoad 0 World.initial threePicks).world.load 0 1 + 1 :=
  ⟨by decide +kernel, (least_connections_balances twoByLoad 0 World.initial (fun _ => rfl)
    threePicks).2.2 rfl undisturbed_threePicks 0 (by decide) 1 (by decide)⟩

end Gateway
end ApiGateway
