import Mathlib.Data.List.AList
import Mathlib.Data.List.DropRight

/-!
# String operations of the Rust standard library

The operations on `str` that are not in Lean under the same behaviour, each
defined on the list of characters of a `String`.  A Rust `str` is valid UTF-8, so
prefixes, suffixes and pieces cut at a character boundary are the same on bytes
and on characters; only the length is counted in bytes.
-/

namespace ApiGateway
namespace Library

/-- A hash map with text keys, together with the order in which it is iterated. -/
abbrev StringMap (V : Type) := AList fun _ : String => V

namespace Text

/-- `str::len`: the number of bytes. -/
def len (text : String) : Nat := text.utf8ByteSize

/-- `str::starts_with`. -/
def startsWith (text start : String) : Bool := start.toList.isPrefixOf text.toList

/-- `str::strip_prefix`. -/
def stripPrefix (text start : String) : Option String :=
  if startsWith text start then
    some (String.ofList (text.toList.drop start.toList.length))
  else
    none

/-- `str::trim_end_matches` with one character. -/
def trimEndMatches (text : String) (char : Char) : String :=
  String.ofList (text.toList.rdropWhile (· == char))

/-- The first piece of `str::split` with one character: everything before its
first occurrence, or the whole text. -/
def splitFirst (text : String) (char : Char) : String :=
  String.ofList (text.toList.takeWhile (· != char))

/-- The characters with the Unicode property `White_Space`. -/
def isWhitespace (char : Char) : Bool :=
  let code := char.toNat
  (9 ≤ code && code ≤ 13) || code == 0x20 || code == 0x85 || code == 0xA0 || code == 0x1680 ||
    (0x2000 ≤ code && code ≤ 0x200A) || code == 0x2028 || code == 0x2029 || code == 0x202F ||
    code == 0x205F || code == 0x3000

/-- `str::trim`. -/
def trim (text : String) : String :=
  String.ofList ((text.toList.dropWhile isWhitespace).rdropWhile isWhitespace)

/-- `str::to_ascii_lowercase`. -/
def toAsciiLowercase (text : String) : String :=
  String.ofList (text.toList.map Char.toLower)

/-- `str::eq_ignore_ascii_case`. -/
def eqIgnoreAsciiCase (left right : String) : Bool :=
  toAsciiLowercase left == toAsciiLowercase right

/-- `str::contains` with a text pattern. -/
def contains (text pattern : String) : Bool :=
  text.toList.tails.any fun tail => pattern.toList.isPrefixOf tail

/-- `str::as_bytes`. -/
def asBytes (text : String) : List UInt8 := text.toList.flatMap String.utf8EncodeChar

/-- Decimal digits of an unsigned number, as `ToString` writes them. -/
def ofNat (n : Nat) : String := String.ofList (Nat.toDigits 10 n)

/-! ## Prefixes in characters and in bytes -/

theorem startsWith_iff {text start : String} :
    startsWith text start = true ↔ ∃ rest, text.toList = start.toList ++ rest := by
  rw [startsWith, List.isPrefixOf_iff_prefix]
  exact ⟨fun ⟨rest, h⟩ => ⟨rest, h.symm⟩, fun ⟨rest, h⟩ => ⟨rest, h.symm⟩⟩

theorem length_asBytes (text : String) : (asBytes text).length = len text := by
  unfold asBytes len
  rw [← String.size_toByteArray]
  conv_rhs => rw [← String.ofList_toList (s := text), String.toByteArray_ofList]
  simp [List.utf8Encode]

/-- The first byte of an encoded character is a slash only for the slash. -/
theorem head?_utf8EncodeChar_eq_slash {char : Char} :
    (String.utf8EncodeChar char).head? = some 47 ↔ char = '/' := by
  constructor
  · intro h
    unfold String.utf8EncodeChar at h
    simp only at h
    split_ifs at h with hone htwo hthree
    · have hcode : char.val.toNat % 256 = 47 := congrArg UInt8.toNat (Option.some.inj h)
      have hval : char.val.toNat = 47 := by omega
      exact Char.ext (UInt32.toNat_inj.mp hval)
    · have hcode : (char.val.toNat / 64 % 32 + 192) % 256 = 47 :=
        congrArg UInt8.toNat (Option.some.inj h)
      omega
    · have hcode : (char.val.toNat / 4096 % 16 + 224) % 256 = 47 :=
        congrArg UInt8.toNat (Option.some.inj h)
      omega
    · have hcode : (char.val.toNat / 262144 % 8 + 240) % 256 = 47 :=
        congrArg UInt8.toNat (Option.some.inj h)
      omega
  · rintro rfl
    rfl

/-- A text that starts with `start` and has a slash at the byte after it continues
with the character `/`. -/
theorem startsWith_and_slash_iff {text start : String} :
    startsWith text start = true ∧ (asBytes text)[len start]? = some 47 ↔
      ∃ rest, text.toList = start.toList ++ '/' :: rest := by
  constructor
  · rintro ⟨hstart, hbyte⟩
    obtain ⟨rest, hrest⟩ := startsWith_iff.mp hstart
    have hbytes : asBytes text = asBytes start ++ rest.flatMap String.utf8EncodeChar := by
      simp [asBytes, hrest]
    rw [hbytes, ← length_asBytes, List.getElem?_append_right (Nat.le_refl _), Nat.sub_self,
      ← List.head?_eq_getElem?] at hbyte
    cases rest with
    | nil => cases hbyte
    | cons char rest =>
        rw [List.flatMap_cons, List.head?_append_of_ne_nil _ String.utf8EncodeChar_ne_nil] at hbyte
        rw [head?_utf8EncodeChar_eq_slash.mp hbyte] at hrest
        exact ⟨rest, hrest⟩
  · rintro ⟨rest, hrest⟩
    refine ⟨startsWith_iff.mpr ⟨_, hrest⟩, ?_⟩
    have hbytes : asBytes text =
        asBytes start ++ 47 :: rest.flatMap String.utf8EncodeChar := by
      simp only [asBytes, hrest, List.flatMap_append, List.flatMap_cons]
      rfl
    rw [hbytes, ← length_asBytes]
    simp

/-- Trimming one character keeps all others. -/
theorem mem_trimEndMatches {text : String} {trimmed char : Char} (h : char ∈ text.toList)
    (hne : char ≠ trimmed) : char ∈ (trimEndMatches text trimmed).toList := by
  have hwhole : text.toList.rdropWhile (· == trimmed) ++ text.toList.rtakeWhile (· == trimmed) =
      text.toList := List.rdropWhile_append_rtakeWhile
  rw [trimEndMatches, String.toList_ofList]
  rw [← hwhole, List.mem_append] at h
  rcases h with hkept | hcut
  · exact hkept
  · have hsame := List.mem_rtakeWhile_imp hcut
    exact absurd (beq_iff_eq.mp hsame) hne

/-! ## Joining with a separator -/

/-- What follows the last separator can be told from what comes before it. -/
theorem append_cons_cancel {α : Type} {separator : α} {front front' back back' : List α}
    (hback : separator ∉ back) (hback' : separator ∉ back')
    (h : front ++ separator :: back = front' ++ separator :: back') :
    front = front' ∧ back = back' := by
  rcases List.append_eq_append_iff.mp h with ⟨middle, hfront, hrest⟩ | ⟨middle, hfront, hrest⟩
  · cases middle with
    | nil => exact ⟨by simpa using hfront.symm, (List.cons.inj hrest).2⟩
    | cons first middle =>
        exfalso
        apply hback
        rw [(List.cons.inj hrest).2]
        simp
  · cases middle with
    | nil => exact ⟨by simpa using hfront, (List.cons.inj hrest).2.symm⟩
    | cons first middle =>
        exfalso
        apply hback'
        rw [(List.cons.inj hrest).2]
        simp

/-- Two texts joined by a space are determined when the second has no space. -/
theorem join_space_inj {front front' back back' : String} (hback : ' ' ∉ back.toList)
    (hback' : ' ' ∉ back'.toList) (h : front ++ " " ++ back = front' ++ " " ++ back') :
    front = front' ∧ back = back' := by
  have hlists := congrArg String.toList h
  simp only [String.toList_append, List.append_assoc] at hlists
  obtain ⟨hfront, hrest⟩ := append_cons_cancel hback hback' hlists
  exact ⟨String.toList_injective hfront, String.toList_injective hrest⟩

/-! ## Ignoring case -/

/-- A character that is no letter is only reached from itself. -/
theorem toLower_eq_iff {char other : Char} (h : other.val.toNat < 65 ∨
    (90 < other.val.toNat ∧ other.val.toNat < 97)) : char.toLower = other ↔ char = other := by
  unfold Char.toLower
  by_cases hupper : char.val ≥ 'A'.val ∧ char.val ≤ 'Z'.val
  · rw [dif_pos hupper]
    have hlow : 65 ≤ char.val.toNat := hupper.1
    have hhigh : char.val.toNat ≤ 90 := hupper.2
    constructor
    · intro heq
      have hval := congrArg (fun c : Char => c.val.toNat) heq
      have hsum : (char.val + ('a'.val - 'A'.val)).toNat = char.val.toNat + 32 := by
        rw [UInt32.toNat_add]
        have hdiff : ('a'.val - 'A'.val).toNat = 32 := rfl
        rw [hdiff]
        omega
      simp only [hsum] at hval
      omega
    · rintro rfl
      omega
  · rw [dif_neg hupper]

theorem eqIgnoreAsciiCase_iff {left right : String} :
    eqIgnoreAsciiCase left right = true ↔
      left.toList.map Char.toLower = right.toList.map Char.toLower := by
  unfold eqIgnoreAsciiCase toAsciiLowercase
  rw [beq_iff_eq, String.ofList_inj]

/-- A text that is cut at a separator which is no letter, and then compared without case,
is cut at the same place after going to lower case. -/
theorem map_toLower_takeWhile {separator : Char} (h : separator.val.toNat < 65 ∨
    (90 < separator.val.toNat ∧ separator.val.toNat < 97)) (chars : List Char) :
    (chars.takeWhile (· != separator)).map Char.toLower =
      (chars.map Char.toLower).takeWhile (· != separator) := by
  rw [List.takeWhile_map]
  congr 2
  funext char
  have hiff : char.toLower = separator ↔ char = separator := toLower_eq_iff h
  show (char != separator) = (char.toLower != separator)
  by_cases hchar : char = separator
  · rw [hiff.mpr hchar, hchar]
  · rw [bne_iff_ne.mpr hchar, bne_iff_ne.mpr fun hlower => hchar (hiff.mp hlower)]

end Text
end Library
end ApiGateway
