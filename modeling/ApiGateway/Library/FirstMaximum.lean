import Mathlib.Data.List.MinMax

/-!
# The first maximum of a list

`List.argmax` folds over a list and keeps the first element of largest value.  Here it is
described by the place of that element in the list: everything before it is smaller, and
nothing after it is larger.  The order of the list matters only when the maximum is
attained by different elements.
-/

namespace ApiGateway
namespace Library

variable {α β : Type} [LinearOrder β] {f : α → β}

/-- The element is at a place with smaller elements before it and no larger ones after
it. -/
def FirstMaximum (f : α → β) (list : List α) (first : α) : Prop :=
  ∃ before after, list = before ++ first :: after ∧
    (∀ other ∈ before, f other < f first) ∧ ∀ other ∈ after, f other ≤ f first

namespace FirstMaximum

variable {list : List α} {first second : α}

theorem mem (h : FirstMaximum f list first) : first ∈ list := by
  obtain ⟨before, after, rfl, -, -⟩ := h
  simp

theorem le (h : FirstMaximum f list first) {other : α} (hother : other ∈ list) :
    f other ≤ f first := by
  obtain ⟨before, after, rfl, hbefore, hafter⟩ := h
  rcases List.mem_append.mp hother with hfront | hback
  · exact (hbefore other hfront).le
  · rcases List.mem_cons.mp hback with rfl | htail
    · exact le_rfl
    · exact hafter other htail

/-- There is one first maximum. -/
theorem unique (h : FirstMaximum f list first) (h' : FirstMaximum f list second) :
    first = second := by
  have hle := h.le h'.mem
  have hge := h'.le h.mem
  obtain ⟨before, after, hsplit, hbefore, -⟩ := h
  obtain ⟨before', after', hsplit', hbefore', -⟩ := h'
  -- Otherwise one of the two is before the other, and so smaller.
  rcases List.append_eq_append_iff.mp (hsplit.symm.trans hsplit') with
    ⟨between, hfront, hback⟩ | ⟨between, hfront, hback⟩
  · cases between with
    | nil => exact (List.cons.inj hback).1
    | cons head between =>
        obtain ⟨rfl, -⟩ := List.cons.inj hback
        have hsmaller := hbefore' first (by simp [hfront])
        exact absurd hle (not_le.mpr hsmaller)
  · cases between with
    | nil => exact (List.cons.inj hback).1.symm
    | cons head between =>
        obtain ⟨rfl, -⟩ := List.cons.inj hback
        have hsmaller := hbefore second (by simp [hfront])
        exact absurd hge (not_le.mpr hsmaller)

end FirstMaximum

/-- What `argmax` keeps is the first maximum. -/
theorem firstMaximum_of_argmax {list : List α} {first : α} (h : list.argmax f = some first) :
    FirstMaximum f list first := by
  induction list using List.reverseRecOn generalizing first with
  | nil => cases h
  | append_singleton list last ih =>
      rw [List.argmax_concat] at h
      cases hlist : list.argmax f with
      | none =>
          rw [hlist] at h
          obtain rfl := Option.some.inj h
          obtain rfl := List.argmax_eq_none.mp hlist
          exact ⟨[], [], rfl, nofun, nofun⟩
      | some best =>
          rw [hlist] at h
          have hbest := ih hlist
          by_cases hlast : f best < f last
          · -- The new element is larger than all before it.
            obtain rfl : last = first := by simpa [hlast] using h
            exact ⟨list, [], rfl, fun other hother => (hbest.le hother).trans_lt hlast, nofun⟩
          · obtain rfl : best = first := by simpa [hlast] using h
            obtain ⟨before, after, rfl, hbefore, hafter⟩ := hbest
            refine ⟨before, after ++ [last], by simp, hbefore, fun other hother => ?_⟩
            rcases List.mem_append.mp hother with hold | hnew
            · exact hafter other hold
            · rw [List.mem_singleton.mp hnew]
              exact not_lt.mp hlast

theorem argmax_eq_some_iff_firstMaximum {list : List α} {first : α} :
    list.argmax f = some first ↔ FirstMaximum f list first := by
  refine ⟨firstMaximum_of_argmax, fun h => ?_⟩
  cases hbest : list.argmax f with
  | none =>
      obtain rfl := List.argmax_eq_none.mp hbest
      exact absurd h.mem List.not_mem_nil
  | some best => rw [(firstMaximum_of_argmax hbest).unique h]

/-- The property and maximality among the elements with it. -/
def MaximalWith (f : α → β) (property : α → Prop) (list : List α) (element : α) : Prop :=
  property element ∧ ∀ other ∈ list, property other → f other ≤ f element

section Search

variable {property : α → Prop} [DecidablePred property] {list : List α} {first : α}

instance (element : α) : Decidable (MaximalWith f property list element) :=
  inferInstanceAs (Decidable (_ ∧ _))

/-- What a search for a maximal element finds is the first maximum of the elements with the
property. -/
theorem firstMaximum_of_find?
    (h : (list.find? fun element => decide (MaximalWith f property list element)) = some first) :
    FirstMaximum f (list.filter fun element => decide (property element)) first := by
  obtain ⟨hmaximal, before, after, hsplit, hbefore⟩ := List.find?_eq_some_iff_append.mp h
  obtain ⟨hproperty, hle⟩ := of_decide_eq_true hmaximal
  refine ⟨before.filter fun element => decide (property element),
    after.filter fun element => decide (property element), ?_, ?_, ?_⟩
  · rw [hsplit, List.filter_append, List.filter_cons, if_pos (decide_eq_true hproperty)]
  · intro other hother
    obtain ⟨hmem, hhas⟩ := List.mem_filter.mp hother
    -- An earlier element was passed over, so it is not maximal.
    have hnot : ¬ MaximalWith f property list other := by simpa using hbefore other hmem
    by_contra hlarge
    refine hnot ⟨of_decide_eq_true hhas, fun element helement hwith => ?_⟩
    exact (hle element helement hwith).trans (not_lt.mp hlarge)
  · intro other hother
    obtain ⟨hmem, hhas⟩ := List.mem_filter.mp hother
    exact hle other (by simp [hsplit, hmem]) (of_decide_eq_true hhas)

theorem find?_maximalWith_eq_argmax :
    (list.find? fun element => decide (MaximalWith f property list element)) =
      (list.filter fun element => decide (property element)).argmax f := by
  cases hfound : list.find? fun element => decide (MaximalWith f property list element) with
  | some first => exact (argmax_eq_some_iff_firstMaximum.mpr (firstMaximum_of_find? hfound)).symm
  | none =>
      cases hbest : (list.filter fun element => decide (property element)).argmax f with
      | none => rfl
      | some best =>
          -- The maximum would have been found.
          exfalso
          have hmax := firstMaximum_of_argmax hbest
          obtain ⟨hmem, hhas⟩ := List.mem_filter.mp hmax.mem
          apply List.find?_eq_none.mp hfound best hmem
          refine decide_eq_true ⟨of_decide_eq_true hhas, fun other hother hwith => ?_⟩
          exact hmax.le (List.mem_filter.mpr ⟨hother, decide_eq_true hwith⟩)

end Search

/-- Lists with the same elements have the same first maximum, when only one element is
maximal. -/
theorem argmax_eq_of_perm {list list' : List α} (hperm : list.Perm list')
    (hsingle : ∀ first ∈ list, ∀ second ∈ list, (∀ other ∈ list, f other ≤ f first) →
      (∀ other ∈ list, f other ≤ f second) → first = second) :
    list'.argmax f = list.argmax f := by
  cases hbest : list.argmax f with
  | none =>
      obtain rfl := List.argmax_eq_none.mp hbest
      rw [List.nil_perm.mp hperm]
      rfl
  | some best =>
      have hmax := firstMaximum_of_argmax hbest
      cases hbest' : list'.argmax f with
      | none =>
          obtain rfl := List.argmax_eq_none.mp hbest'
          exact absurd (hperm.mem_iff.mp hmax.mem) List.not_mem_nil
      | some best' =>
          have hmax' := firstMaximum_of_argmax hbest'
          have hsame := hsingle best' (hperm.mem_iff.mpr hmax'.mem) best hmax.mem
            (fun other hother => hmax'.le (hperm.mem_iff.mp hother)) fun other => hmax.le
          rw [hsame]

/-! ## The least element of an increasing list -/

/-- Of the first two elements `argmin` keeps the first, unless the second is smaller. -/
theorem argmin_cons_cons (first second : α) (rest : List α) :
    (first :: second :: rest).argmin f =
      ((if f second < f first then second else first) :: rest).argmin f := by
  unfold List.argmin
  simp only [List.foldl_cons, List.argAux]
  split
  · rfl
  · rfl

/-- In an increasing list the first minimum is the smallest element of least value. -/
theorem least_of_argmin [LinearOrder α] {list : List α} (hsorted : list.Pairwise (· < ·))
    {least : α} (h : list.argmin f = some least) :
    least ∈ list ∧ ∀ other ∈ list, f least < f other ∨ (f least = f other ∧ least ≤ other) := by
  have hmem := List.argmin_mem h
  refine ⟨hmem, fun other hother => ?_⟩
  rcases (List.le_of_mem_argmin hother h).lt_or_eq with hlt | heq
  · exact Or.inl hlt
  · refine Or.inr ⟨heq, ?_⟩
    have hleast := List.idxOf_lt_length_of_mem hmem
    have hplace := List.idxOf_lt_length_of_mem hother
    rcases (List.index_of_argmin h hother heq.ge).lt_or_eq with hbefore | hsame
    · have hless := List.pairwise_iff_getElem.mp hsorted _ _ hleast hplace hbefore
      rw [List.getElem_idxOf, List.getElem_idxOf] at hless
      exact hless.le
    · exact ((List.idxOf_inj hmem).mp hsame).le

end Library
end ApiGateway
