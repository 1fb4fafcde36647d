import Mathlib.Data.List.Infix
import Mathlib.Data.List.TakeDrop

/-!
# Segments of a path and their dot segments

A path is read as the list of its segments between slashes; a leading slash makes
the first segment empty.  `resolveDots` removes the segments `.` and `..` the way a
URL parser does for the path of a hierarchical URL: `.` disappears, `..` takes the
segment before it away, and either of them in last place leaves an empty segment.
An empty segment is a segment like any other.

`prefix_resolveDots` says when the first segments survive: they are plain, and the
segments after them never climb above them.
-/

namespace ApiGateway
namespace Library

abbrev Segment := List Char

/-- The segments of a path, one more than it has slashes. -/
def segments (path : String) : List Segment := path.toList.splitOn '/'

/-- The path with the given segments. -/
def joinSegments (parts : List Segment) : String :=
  String.ofList (['/'].intercalate parts)

theorem segments_joinSegments {parts : List Segment} (hslash : ∀ part ∈ parts, '/' ∉ part)
    (hne : parts ≠ []) : segments (joinSegments parts) = parts := by
  simp only [segments, joinSegments, String.toList_ofList]
  exact List.splitOn_intercalate '/' hslash hne

theorem intercalate_append {α : Type} (separator : α) (front back : List (List α))
    (hfront : front ≠ []) (hback : back ≠ []) :
    [separator].intercalate (front ++ back) =
      [separator].intercalate front ++ separator :: [separator].intercalate back := by
  induction front with
  | nil => exact absurd rfl hfront
  | cons part front ih =>
      cases front with
      | nil => simp [List.intercalate_cons_of_ne_nil hback]
      | cons next front =>
          have htail := ih (by simp)
          rw [List.cons_append] at htail
          rw [List.cons_append, List.cons_append, List.intercalate_cons_cons, htail,
            List.intercalate_cons_cons]
          simp

/-- The first segments of a text are those of `start` exactly when the text is
`start` or continues it with a slash. -/
theorem segments_prefix_iff (text start : String) :
    segments start <+: segments text ↔
      text = start ∨ ∃ rest, text.toList = start.toList ++ '/' :: rest := by
  constructor
  · rintro ⟨back, hback⟩
    have htext : text.toList = ['/'].intercalate (segments start ++ back) := by
      rw [hback]
      simp [segments]
    cases back with
    | nil =>
        left
        apply String.toList_inj.mp
        rw [htext]
        simp [segments]
    | cons part back =>
        right
        refine ⟨['/'].intercalate (part :: back), ?_⟩
        have hne : segments start ≠ [] := List.splitOn_ne_nil _ _
        rw [htext, intercalate_append '/' _ (part :: back) hne (by simp)]
        simp [segments]
  · rintro (rfl | ⟨rest, hrest⟩)
    · exact List.prefix_rfl
    · refine ⟨rest.splitOn '/', ?_⟩
      simp only [segments, hrest]
      exact (List.splitOn_append_cons_self _ _).symm

theorem slash_notMem_segments (path : String) : ∀ part ∈ segments path, '/' ∉ part := by
  unfold segments
  induction path.toList with
  | nil => simp
  | cons char rest ih =>
      intro part hpart
      rw [List.splitOn_cons_eq_if_modifyHead] at hpart
      split at hpart
      · rcases List.mem_cons.mp hpart with rfl | hrest
        · simp
        · exact ih part hrest
      · rename_i hchar
        -- The character joins the first segment of the rest.
        obtain ⟨first, others, hsplit⟩ := List.exists_cons_of_ne_nil (List.splitOn_ne_nil '/' rest)
        rw [hsplit, List.modifyHead_cons] at hpart
        rw [hsplit] at ih
        rcases List.mem_cons.mp hpart with rfl | hrest
        · have hfirst := ih first List.mem_cons_self
          simp only [List.mem_cons, not_or]
          exact ⟨fun heq => hchar (beq_iff_eq.mpr heq.symm), hfirst⟩
        · exact ih part (List.mem_cons_of_mem _ hrest)

/-! ## Dot segments -/

def singleDot : Segment := ['.']

def doubleDot : Segment := ['.', '.']

/-- Resolve the dot segments of the input, after the segments already put out. -/
def resolveDots (out : List Segment) : List Segment → List Segment
  | [] => out
  | [last] =>
      if last = doubleDot then out.dropLast ++ [[]]
      else if last = singleDot then out ++ [[]]
      else out ++ [last]
  | part :: next :: rest =>
      if part = doubleDot then resolveDots out.dropLast (next :: rest)
      else if part = singleDot then resolveDots out (next :: rest)
      else resolveDots (out ++ [part]) (next :: rest)

/-- The path of a URL after its dot segments are resolved.  The first segment is
the empty one before the leading slash. -/
def normalizePath (path : String) : String :=
  match segments path with
  | [] => path
  | root :: parts => joinSegments (root :: resolveDots [] parts)

/-- A segment that is no dot segment. -/
def isPlain (part : Segment) : Bool := part != singleDot && part != doubleDot

/-- Reading the segments from `depth` levels below a starting point, no `..` leads
above that point. -/
def neverClimbs : Nat → List Segment → Bool
  | _, [] => true
  | depth, part :: rest =>
      if part = doubleDot then
        match depth with
        | 0 => false
        | depth + 1 => neverClimbs depth rest
      else if part = singleDot then neverClimbs depth rest
      else neverClimbs (depth + 1) rest

/-- A plain segment is put out as it is, in last place too. -/
theorem resolveDots_cons_of_isPlain (out : List Segment) {part : Segment} (rest : List Segment)
    (hplain : isPlain part = true) :
    resolveDots out (part :: rest) = resolveDots (out ++ [part]) rest := by
  obtain ⟨hsingle, hdouble⟩ : part ≠ singleDot ∧ part ≠ doubleDot := by
    simpa [isPlain] using hplain
  cases rest with
  | nil => simp [resolveDots, hsingle, hdouble]
  | cons next rest => simp [resolveDots, hsingle, hdouble]

theorem resolveDots_append_of_isPlain (out front rest : List Segment)
    (hplain : ∀ part ∈ front, isPlain part = true) :
    resolveDots out (front ++ rest) = resolveDots (out ++ front) rest := by
  induction front generalizing out with
  | nil => simp
  | cons part front ih =>
      have hpart := hplain part List.mem_cons_self
      have htail := ih (out ++ [part]) fun other hother =>
        hplain other (List.mem_cons_of_mem _ hother)
      rw [List.cons_append, resolveDots_cons_of_isPlain out _ hpart, htail]
      simp

/-- Nothing new is put out but empty segments. -/
theorem mem_resolveDots {out parts : List Segment} {part : Segment}
    (h : part ∈ resolveDots out parts) : part ∈ out ∨ part ∈ parts ∨ part = [] := by
  fun_induction resolveDots out parts with
  | case1 out => exact Or.inl h
  | case2 out =>
      rcases List.mem_append.mp h with hout | hlast
      · exact Or.inl (List.mem_of_mem_dropLast hout)
      · exact Or.inr (Or.inr (List.mem_singleton.mp hlast))
  | case3 out =>
      rcases List.mem_append.mp h with hout | hlast
      · exact Or.inl hout
      · exact Or.inr (Or.inr (List.mem_singleton.mp hlast))
  | case4 out last =>
      rcases List.mem_append.mp h with hout | hlast
      · exact Or.inl hout
      · exact Or.inr (Or.inl hlast)
  | case5 out next rest ih =>
      rcases ih h with hout | hrest | hempty
      · exact Or.inl (List.mem_of_mem_dropLast hout)
      · exact Or.inr (Or.inl (List.mem_cons_of_mem _ hrest))
      · exact Or.inr (Or.inr hempty)
  | case6 out next rest _ ih =>
      rcases ih h with hout | hrest | hempty
      · exact Or.inl hout
      · exact Or.inr (Or.inl (List.mem_cons_of_mem _ hrest))
      · exact Or.inr (Or.inr hempty)
  | case7 out part' next rest _ _ ih =>
      rcases ih h with hout | hrest | hempty
      · rcases List.mem_append.mp hout with hold | hnew
        · exact Or.inl hold
        · exact Or.inr (Or.inl (List.mem_cons.mpr (Or.inl (List.mem_singleton.mp hnew))))
      · exact Or.inr (Or.inl (List.mem_cons_of_mem _ hrest))
      · exact Or.inr (Or.inr hempty)

/-- A `..` that does not climb above the front takes a segment below it away. -/
theorem dropLast_of_neverClimbs (front : List Segment) {below parts : List Segment}
    (hstays : neverClimbs below.length (doubleDot :: parts) = true) :
    (front ++ below).dropLast = front ++ below.dropLast ∧
      neverClimbs below.dropLast.length parts = true := by
  cases below using List.reverseRecOn with
  | nil => cases hstays
  | append_singleton below last =>
      refine ⟨by rw [← List.append_assoc, List.dropLast_concat, List.dropLast_concat], ?_⟩
      rw [List.dropLast_concat]
      simpa [neverClimbs] using hstays

/-- The segments put out first survive as long as nothing climbs above them. -/
theorem prefix_resolveDots (front below parts : List Segment)
    (hstays : neverClimbs below.length parts = true) :
    front <+: resolveDots (front ++ below) parts := by
  -- `below` is what has been put out after the front; only it can be taken away.
  induction parts generalizing below with
  | nil => exact List.prefix_append front below
  | cons part rest ih =>
      by_cases hdouble : part = doubleDot
      · subst hdouble
        obtain ⟨hdrop, hrest⟩ := dropLast_of_neverClimbs front hstays
        cases rest with
        | nil =>
            simp only [resolveDots, if_pos, hdrop, List.append_assoc]
            exact List.prefix_append front _
        | cons next rest =>
            simp only [resolveDots, if_pos, hdrop]
            exact ih below.dropLast hrest
      · by_cases hsingle : part = singleDot
        · subst hsingle
          have hrest : neverClimbs below.length rest = true := by
            simpa [neverClimbs, hdouble] using hstays
          cases rest with
          | nil =>
              simp only [resolveDots, if_neg hdouble, if_pos, List.append_assoc]
              exact List.prefix_append front _
          | cons next rest =>
              simp only [resolveDots, if_neg hdouble, if_pos]
              exact ih below hrest
        · have hplain : isPlain part = true := by simp [isPlain, hsingle, hdouble]
          have hrest : neverClimbs (below ++ [part]).length rest = true := by
            simpa [neverClimbs, hsingle, hdouble] using hstays
          rw [resolveDots_cons_of_isPlain _ _ hplain, List.append_assoc]
          exact ih (below ++ [part]) hrest

end Library
end ApiGateway
