import ApiGateway.Library.Text

/-!
# Scheme and authority of a URL text

How a URL parser that follows the WHATWG rules cuts the scheme and the authority of an
`http` or `https` URL out of its text: tabs and line breaks are dropped, the scheme ends
at the first colon, any number of slashes and backslashes is skipped, and the authority
ends at the next slash, backslash, question mark or hash.  Nothing is said about whether
the authority is a host that exists.
-/

namespace ApiGateway
namespace Library
namespace UrlText

/-- Tabs and line breaks, which the parser drops wherever they stand. -/
def isDropped (char : Char) : Bool := char == '\t' || char == '\n' || char == '\r'

/-- The parser takes a backslash for a slash. -/
def isSlash (char : Char) : Bool := char == '/' || char == '\\'

def endsAuthority (char : Char) : Bool := isSlash char || char == '?' || char == '#'

/-- The characters of a text that the parser looks at. -/
def kept (text : String) : List Char := text.toList.filter fun char => !isDropped char

def scheme (url : String) : List Char := (kept url).takeWhile (· != ':')

def afterScheme (url : String) : List Char := ((kept url).dropWhile (· != ':')).drop 1

/-- The authority without its leading slashes. -/
def authority (url : String) : List Char :=
  ((afterScheme url).dropWhile isSlash).takeWhile fun char => !endsAuthority char

/-- Something other than slashes follows the scheme. -/
def Anchored (url : String) : Prop := ∃ char ∈ afterScheme url, isSlash char = false

@[simp] theorem kept_append (front back : String) :
    kept (front ++ back) = kept front ++ kept back := by
  simp [kept]

/-- The first colon of a text is found before anything that is appended to it. -/
theorem scheme_append {base : String} (hcolon : ':' ∈ kept base) (tail : String) :
    scheme (base ++ tail) = scheme base ∧
      afterScheme (base ++ tail) = afterScheme base ++ kept tail := by
  obtain ⟨front, back, hsplit, hfront⟩ := List.eq_append_cons_of_mem hcolon
  have hpass : ∀ char ∈ front, (char != ':') = true := by
    intro char hchar
    rw [bne_iff_ne]
    rintro rfl
    exact hfront hchar
  constructor
  · simp [scheme, hsplit, List.takeWhile_append_of_pos hpass]
  · simp [afterScheme, hsplit, List.dropWhile_append_of_pos hpass]

theorem not_anchored_iff {url : String} :
    ¬ Anchored url ↔ (afterScheme url).dropWhile isSlash = [] := by
  rw [List.dropWhile_eq_nil_iff]
  simp [Anchored]

/-- Once something other than slashes stands after the scheme, a tail that ends the
authority at once does not change it. -/
theorem authority_append_of_anchored {base tail : String} (hcolon : ':' ∈ kept base)
    (hanchored : Anchored base)
    (htail : (kept tail).takeWhile (fun char => !endsAuthority char) = []) :
    authority (base ++ tail) = authority base := by
  have hsome : ((afterScheme base).dropWhile isSlash).isEmpty ≠ true := by
    intro hempty
    exact not_anchored_iff.mpr (List.isEmpty_iff.mp hempty) hanchored
  unfold authority
  rw [(scheme_append hcolon tail).2, List.dropWhile_append, if_neg hsome, List.takeWhile_append,
    htail, List.append_nil]
  split
  · rename_i hlength
    exact ((List.takeWhile_prefix _).eq_of_length hlength).symm
  · rfl

/-- With nothing but slashes after the scheme, the authority is what the tail begins with. -/
theorem authority_append_of_not_anchored {base : String} (hcolon : ':' ∈ kept base)
    (hanchored : ¬ Anchored base) (tail : String) :
    authority base = [] ∧
      authority (base ++ tail) =
        ((kept tail).dropWhile isSlash).takeWhile fun char => !endsAuthority char := by
  have hnone := not_anchored_iff.mp hanchored
  constructor
  · rw [authority, hnone]
    rfl
  · rw [authority, (scheme_append hcolon tail).2, List.dropWhile_append, hnone]
    rfl

end UrlText
end Library
end ApiGateway
