import ApiGateway.Library.Text

/-!
# Comma-separated lists

A header that is a list separates its entries by commas, with blanks around them; empty
entries are not counted.  What a blank is differs between the readers of a list, so it is a
parameter.
-/

namespace ApiGateway
namespace Library
namespace CommaList

variable {blank : Char → Bool}

/-- The text without the blanks at its two ends. -/
def strip (blank : Char → Bool) (text : List Char) : List Char :=
  (text.dropWhile blank).rdropWhile blank

/-- The entries of a list, in order. -/
def entries (blank : Char → Bool) (text : List Char) : List (List Char) :=
  ((text.splitOn ',').map (strip blank)).filter (· ≠ [])

theorem trim_eq_strip (text : String) :
    (Text.trim text).toList = strip Text.isWhitespace text.toList :=
  String.toList_ofList

theorem mem_of_mem_strip {text : List Char} {char : Char} (h : char ∈ strip blank text) :
    char ∈ text :=
  (List.dropWhile_sublist _).subset ((List.rdropWhile_prefix _ _).subset h)

theorem strip_cons_of_blank {char : Char} (h : blank char = true) (text : List Char) :
    strip blank (char :: text) = strip blank text := by
  rw [strip, List.dropWhile_cons_of_pos h]
  rfl

/-- Stripping once is enough. -/
theorem strip_strip (text : List Char) : strip blank (strip blank text) = strip blank text := by
  have hfront : (strip blank text).dropWhile blank = strip blank text := by
    cases hstripped : strip blank text with
    | nil => rfl
    | cons first rest =>
        -- What is left begins where the text without its leading blanks begins.
        have hbegins : first :: rest <+: text.dropWhile blank := by
          rw [← hstripped]
          exact List.rdropWhile_prefix _ _
        obtain ⟨more, hmore⟩ := hbegins
        have hhead := List.head?_dropWhile_not blank text
        rw [← hmore] at hhead
        exact List.dropWhile_cons_of_neg (by simpa using hhead)
  rw [strip, hfront]
  exact List.rdropWhile_idempotent _ _

/-- Nothing is stripped from a text that neither begins nor ends with a blank. -/
theorem strip_eq_self_of_ends {text : List Char}
    (hfirst : ∀ char ∈ text.head?, blank char = false)
    (hlast : ∀ char ∈ text.getLast?, blank char = false) : strip blank text = text := by
  have hfront : text.dropWhile blank = text := by
    cases text with
    | nil => rfl
    | cons first rest =>
        exact List.dropWhile_cons_of_neg (by simp [hfirst first rfl])
  rw [strip, hfront, List.rdropWhile_eq_self_iff]
  intro hne
  simp [hlast _ (List.getLast?_eq_some_getLast hne)]

/-- Nothing is stripped from a text without blanks. -/
theorem strip_eq_self {text : List Char} (h : ∀ char ∈ text, blank char = false) :
    strip blank text = text :=
  strip_eq_self_of_ends (fun char hchar => h char (List.mem_of_head? hchar))
    fun char hchar => h char (List.mem_of_getLast? hchar)

/-- What is left after stripping does not begin with a blank. -/
theorem head?_of_strip_eq_self {text : List Char} (h : strip blank text = text) :
    ∀ char ∈ text.head?, blank char = false := by
  intro char hchar
  cases text with
  | nil => cases hchar
  | cons first rest =>
      obtain rfl : first = char := Option.some.inj hchar
      cases hblank : blank first with
      | false => rfl
      | true =>
          rw [strip_cons_of_blank hblank] at h
          have hlength := congrArg List.length h
          have hle := ((List.rdropWhile_prefix blank (rest.dropWhile blank)).sublist.trans
            (List.dropWhile_sublist blank)).length_le
          rw [strip, List.length_cons] at hlength
          omega

/-- A text that is one entry by itself. -/
structure IsEntry (blank : Char → Bool) (text : List Char) : Prop where
  nonempty : text ≠ []
  noComma : ',' ∉ text
  stripped : strip blank text = text

/-- The first piece of a list, stripped, is an entry unless nothing is left of it. -/
theorem isEntry_first {text : List Char} (h : strip blank (text.takeWhile (· != ',')) ≠ []) :
    IsEntry blank (strip blank (text.takeWhile (· != ','))) where
  nonempty := h
  noComma := by
    intro hcomma
    have hpiece := List.mem_takeWhile_imp (mem_of_mem_strip hcomma)
    simp at hpiece
  stripped := strip_strip _

theorem entries_append_comma (front back : List Char) :
    entries blank (front ++ ',' :: back) = entries blank front ++ entries blank back := by
  unfold entries
  rw [List.splitOn_append_cons_self, List.map_append, List.filter_append]

theorem entries_of_isEntry {text : List Char} (h : IsEntry blank text) :
    entries blank text = [text] := by
  rw [entries, List.splitOn_eq_singleton h.noComma]
  simp [h.stripped, h.nonempty]

/-- A blank in front of a single entry is not counted. -/
theorem entries_cons_of_isEntry {char : Char} (hblank : blank char = true) (hne : char ≠ ',')
    {text : List Char} (h : IsEntry blank text) : entries blank (char :: text) = [text] := by
  have hcomma : ',' ∉ char :: text := by
    rintro (_ | ⟨_, hmem⟩)
    · exact hne rfl
    · exact h.noComma hmem
  rw [entries, List.splitOn_eq_singleton hcomma]
  simp [strip_cons_of_blank hblank, h.stripped, h.nonempty]

end CommaList
end Library
end ApiGateway
