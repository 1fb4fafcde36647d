import Mathlib.Data.Finset.Card
import ApiGateway.Library.CallRun

/-!
# A bounded store in front of an unbounded map with expiring entries

`TtlMap` never drops anything: a key is bound to the entry that was put last, and a
lookup returns it until it expires.  A bounded store may forget.  What it holds is
`Sound` when it is what the map holds, and `Complete` at an instant when nothing that
has not expired by then has been forgotten.  A store that is both answers like the map.

`exists_expired` is the counting argument behind eviction: a full store that holds few
unexpired keys holds an expired one.
-/

namespace ApiGateway
namespace Library

/-- The last entry put under each key. -/
abbrev TtlMap (Key Entry : Type) := Key → Option Entry

namespace TtlMap

variable {Key Entry : Type} (expiresAt : Entry → Instant)

/-- The entry of a key, unless it has expired. -/
def get (map : TtlMap Key Entry) (key : Key) (now : Instant) : Option Entry :=
  (map key).filter fun entry => now < expiresAt entry

theorem get_eq_some_iff {map : TtlMap Key Entry} {key : Key} {now : Instant} {entry : Entry} :
    map.get expiresAt key now = some entry ↔ map key = some entry ∧ now < expiresAt entry := by
  simp [get, Option.filter_eq_some_iff]

/-- Whatever the store holds is in the map. -/
def Sound (store map : TtlMap Key Entry) : Prop :=
  ∀ key entry, store key = some entry → map key = some entry

/-- Whatever has not expired is in the store. -/
def Complete (store map : TtlMap Key Entry) (now : Instant) : Prop :=
  ∀ key entry, map key = some entry → now < expiresAt entry → store key = some entry

/-- A sound and complete store answers like the map. -/
theorem get_eq_of_sound_of_complete {store map : TtlMap Key Entry} {now : Instant}
    (hsound : Sound store map) (hcomplete : Complete expiresAt store map now) (key : Key) :
    store.get expiresAt key now = map.get expiresAt key now := by
  ext entry
  rw [get_eq_some_iff, get_eq_some_iff]
  constructor
  · rintro ⟨hstore, hlive⟩
    exact ⟨hsound key entry hstore, hlive⟩
  · rintro ⟨hmap, hlive⟩
    exact ⟨hcomplete key entry hmap hlive, hlive⟩

/-- A store with room for the unexpired keys and a new one, but already full without the
new one, holds an expired key. -/
theorem exists_expired [DecidableEq Key] {held live : Finset Key} {key : Key} {capacity : Nat}
    (hfew : (insert key live).card ≤ capacity) (hfull : capacity ≤ held.card)
    (hnew : key ∉ held) : ∃ old ∈ held, old ∉ live := by
  by_contra hnone
  have hsubset : held ⊆ live := by
    intro old hold
    by_contra hdead
    exact hnone ⟨old, hold, hdead⟩
  have hgrown : (insert key held).card ≤ (insert key live).card :=
    Finset.card_le_card (Finset.insert_subset_insert key hsubset)
  rw [Finset.card_insert_of_notMem hnew] at hgrown
  omega

end TtlMap
end Library
end ApiGateway
