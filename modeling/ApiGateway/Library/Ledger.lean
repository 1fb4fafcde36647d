import Mathlib.Algebra.GroupWithZero.Nat
import ApiGateway.Library.Tally

/-!
# Items that fall due and are booked

Some answers call for something to be booked, and a later call of the same thread books it.
A `Ledger` says which events do which.  `Owes` names the items that are due and not booked
yet, in order; `Prompt` is the discipline that at most one item is open at any time, and none
when the thread waits.

The rules carry `Owes` through a program call by call.  `timesDue_bounds` is the consequence
for a pool of threads: what is booked is what is due, up to the threads that are caught in
between.
-/

namespace ApiGateway
namespace Library

open Program

/-- Which events call for an item, and which book one. -/
structure Ledger (S : Signature) (Item : Type) where
  due : Event S → Option Item
  booked : Event S → Option Item

namespace Ledger

variable {S : Signature} {Item α β : Type} (ledger : Ledger S Item)

def dues (history : List (Event S)) : List Item := history.filterMap ledger.due

def bookings (history : List (Event S)) : List Item := history.filterMap ledger.booked

/-- The items that are due and not booked yet. -/
def Owes (history : List (Event S)) (items : List Item) : Prop :=
  ledger.dues history = ledger.bookings history ++ items

/-- The operation neither calls for an item nor books one. -/
def Quiet (op : S.Op) : Prop :=
  ∀ answer, ledger.due ⟨op, answer⟩ = none ∧ ledger.booked ⟨op, answer⟩ = none

/-- At most one item is open, and none at an operation at which the thread rests. -/
def Prompt (rests : S.Op → Bool) (history : List (Event S)) (op : S.Op) : Prop :=
  ∃ items, ledger.Owes history items ∧ items.length ≤ 1 ∧ (rests op = true → items = [])

variable {ledger} {rests : S.Op → Bool} {history : List (Event S)} {items : List Item}

theorem owes_nil : ledger.Owes [] [] := rfl

/-! ## One event -/

theorem Owes.quiet (h : ledger.Owes history items) {event : Event S}
    (hdue : ledger.due event = none) (hbooked : ledger.booked event = none) :
    ledger.Owes (history ++ [event]) items := by
  simp only [Owes, dues, bookings, List.filterMap_append] at h ⊢
  simp [h, hdue, hbooked]

theorem Owes.due (h : ledger.Owes history []) {event : Event S}
    (hbooked : ledger.booked event = none) :
    ledger.Owes (history ++ [event]) (ledger.due event).toList := by
  simp only [Owes, dues, bookings, List.filterMap_append, List.append_nil] at h ⊢
  rw [h]
  cases hdue : ledger.due event with
  | none => simp [hdue, hbooked]
  | some item => simp [hdue, hbooked]

theorem Owes.book {item : Item} (h : ledger.Owes history [item]) {event : Event S}
    (hdue : ledger.due event = none) (hbooked : ledger.booked event = some item) :
    ledger.Owes (history ++ [event]) [] := by
  simp only [Owes, dues, bookings, List.filterMap_append] at h ⊢
  simp [h, hdue, hbooked]

/-! ## Programs -/

section Programs

variable {post : List (Event S) → β → Prop} {op : S.Op} {next : S.Res op → Program S β}

theorem conforms_quiet_call (howes : ledger.Owes history items) (hshort : items.length ≤ 1)
    (hquiet : ledger.Quiet op) (hrests : rests op = true → items = [])
    (hnext : ∀ answer, ledger.Owes (history ++ [⟨op, answer⟩]) items →
      (next answer).Conforms (ledger.Prompt rests) post (history ++ [⟨op, answer⟩])) :
    (perform op >>= next).Conforms (ledger.Prompt rests) post history :=
  conforms_perform ⟨items, howes, hshort, hrests⟩ fun answer =>
    hnext answer (howes.quiet (hquiet answer).1 (hquiet answer).2)

theorem conforms_due_call (howes : ledger.Owes history [])
    (hbooked : ∀ answer, ledger.booked ⟨op, answer⟩ = none)
    (hnext : ∀ answer, ledger.Owes (history ++ [⟨op, answer⟩]) (ledger.due ⟨op, answer⟩).toList →
      (next answer).Conforms (ledger.Prompt rests) post (history ++ [⟨op, answer⟩])) :
    (perform op >>= next).Conforms (ledger.Prompt rests) post history :=
  conforms_perform ⟨[], howes, Nat.zero_le _, fun _ => rfl⟩ fun answer =>
    hnext answer (howes.due (hbooked answer))

theorem conforms_book_call {item : Item} (howes : ledger.Owes history [item])
    (hdue : ∀ answer, ledger.due ⟨op, answer⟩ = none)
    (hbooked : ∀ answer, ledger.booked ⟨op, answer⟩ = some item) (hrests : rests op = false)
    (hnext : ∀ answer, ledger.Owes (history ++ [⟨op, answer⟩]) [] →
      (next answer).Conforms (ledger.Prompt rests) post (history ++ [⟨op, answer⟩])) :
    (perform op >>= next).Conforms (ledger.Prompt rests) post history := by
  have hprompt : ledger.Prompt rests history op :=
    ⟨[item], howes, Nat.le_refl _, fun h => absurd h (by simp [hrests])⟩
  exact conforms_perform hprompt fun answer =>
    hnext answer (howes.book (hdue answer) (hbooked answer))

/-- A program of quiet calls owes nothing when nothing is owed before it. -/
theorem conforms_of_quiet {program : Program S α} (hmakes : program.Makes ledger.Quiet)
    (howes : ledger.Owes history []) :
    program.Conforms (ledger.Prompt rests) (fun later _ => ledger.Owes later []) history := by
  induction program generalizing history with
  | done value => exact conforms_done howes
  | call op next ih =>
      refine conforms_quiet_call howes (Nat.zero_le _) hmakes.1 (fun _ => rfl)
        fun answer howes' => ?_
      exact ih answer (hmakes.2 answer) howes'

end Programs

/-! ## Threads and pools -/

/-- The program is done, or about to make a call at which it rests. -/
def isAtRest (rests : S.Op → Bool) : Program S α → Bool
  | .done _ => true
  | .call op _ => rests op

/-- What a thread owes wherever it stands. -/
theorem owes_of_steps {program rest : Program S α}
    (h : program.Conforms (ledger.Prompt rests) (fun later _ => ledger.Owes later []) [])
    (hsteps : Steps program history rest) :
    ∃ items, ledger.Owes history items ∧ items.length ≤ 1 ∧
      (isAtRest rests rest = true → items = []) := by
  cases rest with
  | done value => exact ⟨[], h.2 history value hsteps, Nat.zero_le _, fun _ => rfl⟩
  | call op next =>
      have hguarded := h.1.later hsteps
      exact hguarded.1

section Pools

variable {Request Input Disturbance State : Type} [DecidableEq Item]
  {server : Server S Request Input Disturbance State α} {ledgers : Request → Ledger S Item}

/-- The number of times that the threads have booked an item. -/
def timesBooked (ledgers : Request → Ledger S Item) (item : Item)
    (threads : List (Thread S Request α)) : Nat :=
  (threads.map fun thread => ((ledgers thread.request).bookings thread.history).count item).sum

/-- The number of times that an item has fallen due. -/
def timesDue (ledgers : Request → Ledger S Item) (item : Item)
    (threads : List (Thread S Request α)) : Nat :=
  (threads.map fun thread => ((ledgers thread.request).dues thread.history).count item).sum

/-- In every pool that runs prompt programs, what is booked was due, and what is due has been
booked but for one item of each thread that is not at rest. -/
theorem timesDue_bounds
    (hstart : ∀ request, (server.start request).Conforms ((ledgers request).Prompt rests)
      (fun later _ => (ledgers request).Owes later []) [])
    {pool : Pool S Request State α} (hcoherent : Pool.Coherent server pool) (item : Item) :
    timesBooked ledgers item pool.threads ≤ timesDue ledgers item pool.threads ∧
      timesDue ledgers item pool.threads ≤ timesBooked ledgers item pool.threads +
        pool.threads.countP fun thread => !isAtRest rests thread.rest := by
  have hthreads : ∀ thread ∈ pool.threads,
      ((ledgers thread.request).bookings thread.history).count item ≤
          ((ledgers thread.request).dues thread.history).count item ∧
        ((ledgers thread.request).dues thread.history).count item ≤
          ((ledgers thread.request).bookings thread.history).count item +
            if isAtRest rests thread.rest then 0 else 1 := by
    intro thread hthread
    obtain ⟨index, hindex⟩ := List.mem_iff_getElem?.mp hthread
    obtain ⟨items, howes, hshort, hrest⟩ :=
      owes_of_steps (hstart thread.request) (hcoherent.steps index thread hindex)
    rw [howes, List.count_append]
    refine ⟨Nat.le_add_right _ _, Nat.add_le_add_left ?_ _⟩
    split
    · rename_i hatRest
      rw [hrest hatRest]
      exact Nat.le_refl _
    · exact List.count_le_length.trans hshort
  generalize pool.threads = threads at hthreads
  unfold timesBooked timesDue
  induction threads with
  | nil => exact ⟨Nat.le_refl _, Nat.le_refl _⟩
  | cons thread threads ih =>
      obtain ⟨hlow, hhigh⟩ := ih fun other hother => hthreads other (List.mem_cons_of_mem _ hother)
      obtain ⟨hmine, hmine'⟩ := hthreads thread List.mem_cons_self
      simp only [List.map_cons, List.sum_cons, List.countP_cons]
      cases hatRest : isAtRest rests thread.rest with
      | true =>
          simp only [hatRest, if_true] at hmine'
          simp only [Bool.not_true, Bool.false_eq_true, if_false]
          omega
      | false =>
          simp only [hatRest, Bool.false_eq_true, if_false] at hmine'
          simp only [Bool.not_false, if_true]
          omega

end Pools
end Ledger
end Library
end ApiGateway
