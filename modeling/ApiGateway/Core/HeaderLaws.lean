import ApiGateway.Core.Http

/-!
# Header names, values and maps

Reading back what was written: the text of a name parses to the name, and the text of a
value that has one builds the value again.  A header map is described by `getAll`, the
values of each name in order; one lemma for each operation says what it does to them.
-/

namespace ApiGateway
namespace Core

open Library

namespace HeaderName

@[ext] theorem ext {name name' : HeaderName} (h : name.text = name'.text) : name = name' := by
  cases name
  cases name'
  cases h
  rfl

/-- A character of a normalised name is not changed by going to lower case. -/
theorem toLower_eq_self {char : Char} (h : isHeaderNameChar char = true) :
    char.toLower = char := by
  unfold Char.toLower
  by_cases hupper : char.val ≥ 'A'.val ∧ char.val ≤ 'Z'.val
  · exfalso
    have hlow : 65 ≤ char.val.toNat := hupper.1
    have hhigh : char.val.toNat ≤ 90 := hupper.2
    change (('a'.val ≤ char.val && char.val ≤ 'z'.val) || ('0'.val ≤ char.val && char.val ≤ '9'.val) ||
      "!#$%&'*+-.^_`|~".toList.contains char) = true at h
    simp only [Bool.or_eq_true, Bool.and_eq_true, decide_eq_true_eq, List.contains_eq_mem] at h
    rcases h with (⟨hlower, -⟩ | ⟨-, hdigit⟩) | hother
    · have : 97 ≤ char.val.toNat := hlower
      omega
    · have : char.val.toNat ≤ 57 := hdigit
      omega
    · have hnone : "!#$%&'*+-.^_`|~".toList.all
          (fun other => other.val.toNat < 65 || 90 < other.val.toNat) = true := by decide
      have := List.all_eq_true.mp hnone char hother
      simp only [Bool.or_eq_true, decide_eq_true_eq] at this
      omega
  · rw [dif_neg hupper]

theorem toAsciiLowercase_text (name : HeaderName) :
    Text.toAsciiLowercase name.text = name.text := by
  unfold Text.toAsciiLowercase
  have hmap : name.text.toList.map Char.toLower = name.text.toList.map id := by
    apply List.map_congr_left
    intro char hchar
    exact toLower_eq_self (List.all_eq_true.mp name.normal.2 char hchar)
  rw [hmap, List.map_id, String.ofList_toList]

/-- The text of a name parses to the name. -/
@[simp] theorem fromBytes_text (name : HeaderName) : fromBytes name.text = some name := by
  have hlower := toAsciiLowercase_text name
  unfold fromBytes
  simp only [hlower]
  rw [dif_pos name.normal]

/-- However a name is spelled, it is kept in lower case. -/
theorem text_of_fromBytes {spelling : String} {name : HeaderName}
    (h : fromBytes spelling = some name) : name.text = Text.toAsciiLowercase spelling := by
  unfold fromBytes at h
  simp only at h
  split at h
  · rw [← Option.some.inj h]
  · cases h

end HeaderName

namespace HeaderValue

@[ext] theorem ext {value value' : HeaderValue} (h : value.bytes = value'.bytes) :
    value = value' := by
  cases value
  cases value'
  cases h
  rfl

theorem fromStr_eq_some_iff {text : String} {value : HeaderValue} :
    fromStr text = some value ↔ value.bytes = Text.asBytes text := by
  unfold fromStr
  split
  · rw [Option.some.injEq, HeaderValue.ext_iff]
    exact eq_comm
  · rename_i hinvalid
    refine iff_of_false nofun fun hbytes => hinvalid ?_
    rw [← hbytes]
    exact value.valid

theorem isSome_fromStr (text : String) :
    (fromStr text).isSome = (Text.asBytes text).all isHeaderValueByte := by
  unfold fromStr
  split
  · rename_i h
    exact h.symm
  · rename_i h
    exact (Bool.eq_false_iff.mpr h).symm

/-- An ASCII character is encoded as one byte. -/
theorem utf8EncodeChar_ofNat : ∀ code < 128,
    String.utf8EncodeChar (Char.ofNat code) = [UInt8.ofNat code] := by
  decide +kernel

theorem toNat_ofNat : ∀ code < 128, (Char.ofNat code).toNat = code := by
  decide +kernel

theorem isVisibleAscii_iff {byte : UInt8} :
    isVisibleAscii byte = true ↔
      (32 ≤ byte.toNat ∧ byte.toNat < 127) ∨ byte.toNat = 9 := by
  simp only [isVisibleAscii, Bool.or_eq_true, Bool.and_eq_true, decide_eq_true_eq, beq_iff_eq,
    UInt8.le_iff_toNat_le, UInt8.lt_iff_toNat_lt, ← UInt8.toNat_inj]
  rfl

theorem isHeaderValueByte_of_isVisibleAscii {byte : UInt8} (h : isVisibleAscii byte = true) :
    isHeaderValueByte byte = true := by
  have hrange := isVisibleAscii_iff.mp h
  have hdelete : byte ≠ 127 := by
    rintro rfl
    exact absurd hrange (by decide)
  simp only [isVisibleAscii, Bool.or_eq_true, Bool.and_eq_true, decide_eq_true_eq,
    beq_iff_eq] at h
  simp only [isHeaderValueByte, Bool.or_eq_true, Bool.and_eq_true, decide_eq_true_eq,
    bne_iff_ne, beq_iff_eq]
  exact h.imp_left fun hlow => ⟨hlow.1, hdelete⟩

theorem asBytes_of_toStr {value : HeaderValue} {text : String} (h : value.toStr = some text) :
    Text.asBytes text = value.bytes := by
  unfold toStr at h
  split at h
  · rename_i hvisible
    obtain rfl := Option.some.inj h
    unfold Text.asBytes
    rw [String.toList_ofList, List.flatMap_map]
    calc value.bytes.flatMap (fun byte => String.utf8EncodeChar (Char.ofNat byte.toNat))
        = value.bytes.flatMap (fun byte => [byte]) := by
          apply List.flatMap_congr
          intro byte hbyte
          have hrange := isVisibleAscii_iff.mp (List.all_eq_true.mp hvisible byte hbyte)
          rw [utf8EncodeChar_ofNat byte.toNat (by omega), UInt8.ofNat_toNat]
      _ = value.bytes := List.flatMap_singleton' _
  · cases h

/-- The text of a value builds the value again. -/
theorem fromStr_of_toStr {value : HeaderValue} {text : String} (h : value.toStr = some text) :
    fromStr text = some value :=
  fromStr_eq_some_iff.mpr (asBytes_of_toStr h).symm

/-- A character that a header value is read back with: visible ASCII or a tab. -/
def IsReadable (char : Char) : Prop := (32 ≤ char.toNat ∧ char.toNat < 127) ∨ char.toNat = 9

theorem isReadable_of_all {chars : List Char}
    (h : chars.all (fun char => 32 ≤ char.toNat && char.toNat < 127) = true) :
    ∀ char ∈ chars, IsReadable char := by
  intro char hchar
  exact Or.inl (by simpa using List.all_eq_true.mp h char hchar)

theorem IsReadable.lt {char : Char} (h : IsReadable char) : char.toNat < 128 := by
  unfold IsReadable at h
  omega

/-- The text of a value has readable characters only. -/
theorem isReadable_of_toStr {value : HeaderValue} {text : String} (h : value.toStr = some text) :
    ∀ char ∈ text.toList, IsReadable char := by
  unfold toStr at h
  split at h
  · rename_i hvisible
    obtain rfl := Option.some.inj h
    intro char hchar
    rw [String.toList_ofList] at hchar
    obtain ⟨byte, hbyte, rfl⟩ := List.mem_map.mp hchar
    have hrange := isVisibleAscii_iff.mp (List.all_eq_true.mp hvisible byte hbyte)
    unfold IsReadable
    rwa [toNat_ofNat byte.toNat (by omega)]
  · cases h

/-- The byte that a readable character is encoded as. -/
theorem toNat_byte {char : Char} (h : IsReadable char) :
    (UInt8.ofNat char.toNat).toNat = char.toNat := by
  have hascii := h.lt
  rw [UInt8.toNat_ofNat']
  omega

theorem asBytes_of_readable {text : String} (h : ∀ char ∈ text.toList, IsReadable char) :
    Text.asBytes text = text.toList.map fun char => UInt8.ofNat char.toNat := by
  unfold Text.asBytes
  rw [List.map_eq_flatMap]
  apply List.flatMap_congr
  intro char hchar
  have hencoded := utf8EncodeChar_ofNat char.toNat (h char hchar).lt
  rwa [Char.ofNat_toNat] at hencoded

theorem all_isVisibleAscii {text : String} (h : ∀ char ∈ text.toList, IsReadable char) :
    (Text.asBytes text).all isVisibleAscii = true := by
  rw [asBytes_of_readable h, List.all_map, List.all_eq_true]
  intro char hchar
  show isVisibleAscii (UInt8.ofNat char.toNat) = true
  rw [isVisibleAscii_iff, toNat_byte (h char hchar)]
  exact h char hchar

/-- A text of readable characters is accepted and reads back as itself. -/
theorem fromStr_readable {text : String} (h : ∀ char ∈ text.toList, IsReadable char) :
    ∃ value, fromStr text = some value ∧ value.toStr = some text := by
  have hvisible := all_isVisibleAscii h
  have hvalid : (Text.asBytes text).all isHeaderValueByte = true :=
    List.all_eq_true.mpr fun byte hbyte =>
      isHeaderValueByte_of_isVisibleAscii (List.all_eq_true.mp hvisible byte hbyte)
  refine ⟨⟨Text.asBytes text, hvalid⟩, dif_pos hvalid, ?_⟩
  unfold toStr
  rw [if_pos hvisible]
  show some (String.ofList ((Text.asBytes text).map _)) = some text
  rw [asBytes_of_readable h, List.map_map]
  have hchars : text.toList.map ((fun byte : UInt8 => Char.ofNat byte.toNat) ∘
      fun char => UInt8.ofNat char.toNat) = text.toList.map id := by
    apply List.map_congr_left
    intro char hchar
    show Char.ofNat (UInt8.ofNat char.toNat).toNat = char
    rw [toNat_byte (h char hchar), Char.ofNat_toNat]
  rw [hchars, List.map_id, String.ofList_toList]

end HeaderValue

namespace HeaderMap

@[simp] theorem getAll_nil (name : HeaderName) : getAll [] name = [] := rfl

@[simp] theorem getAll_cons (field : HeaderName × HeaderValue) (headers : HeaderMap)
    (name : HeaderName) :
    getAll (field :: headers) name =
      if field.1 = name then field.2 :: getAll headers name else getAll headers name := by
  unfold getAll
  rw [List.filterMap_cons]
  by_cases hname : field.1 = name
  · simp [hname]
  · simp [hname]

theorem getAll_concat (headers more : HeaderMap) (name : HeaderName) :
    getAll (headers ++ more) name = headers.getAll name ++ getAll more name := by
  simp [getAll]

@[simp] theorem getAll_append (headers : HeaderMap) (name other : HeaderName)
    (value : HeaderValue) :
    (headers.append name value).getAll other =
      if name = other then headers.getAll other ++ [value] else headers.getAll other := by
  unfold append
  rw [getAll_concat]
  by_cases hname : name = other
  · simp [hname]
  · simp [hname]

@[simp] theorem getAll_remove (headers : HeaderMap) (name other : HeaderName) :
    (headers.remove name).getAll other = if name = other then [] else headers.getAll other := by
  induction headers with
  | nil => simp [remove]
  | cons field headers ih =>
      unfold remove at ih ⊢
      by_cases hfield : field.1 = name
      · rw [List.filter_cons_of_neg (by simpa using hfield), ih, getAll_cons, hfield]
        by_cases hname : name = other
        · simp [hname]
        · simp [hname]
      · rw [List.filter_cons_of_pos (by simpa using hfield), getAll_cons, getAll_cons, ih]
        by_cases hname : name = other
        · subst hname
          simp [hfield]
        · simp [hname]

@[simp] theorem getAll_insert (headers : HeaderMap) (name other : HeaderName)
    (value : HeaderValue) :
    (headers.insert name value).getAll other =
      if name = other then [value] else headers.getAll other := by
  unfold insert
  rw [getAll_concat, getAll_remove]
  by_cases hname : name = other
  · simp [hname]
  · simp [hname]

/-- What is read from a header has readable characters only. -/
theorem isReadable_of_getStr {headers : HeaderMap} {name : HeaderName} {text : String}
    (h : headers.getStr name = some text) :
    ∀ char ∈ text.toList, HeaderValue.IsReadable char := by
  obtain ⟨value, -, hvalue⟩ := Option.bind_eq_some_iff.mp h
  exact HeaderValue.isReadable_of_toStr hvalue

theorem count_getAll (headers : HeaderMap) (name : HeaderName) (value : HeaderValue) :
    (headers.getAll name).count value = headers.count (name, value) := by
  induction headers with
  | nil => rfl
  | cons field headers ih =>
      obtain ⟨other, carried⟩ := field
      rw [getAll_cons, List.count_cons]
      by_cases hname : other = name
      · subst hname
        simp [List.count_cons, ih]
      · simp [hname, ih]

/-- Maps that have the same values of every name have the same fields. -/
theorem perm_of_getAll_eq {headers headers' : HeaderMap}
    (h : ∀ name, headers.getAll name = headers'.getAll name) : headers.Perm headers' := by
  rw [List.perm_iff_count]
  rintro ⟨name, value⟩
  rw [← count_getAll, h name, count_getAll]

end HeaderMap
end Core
end ApiGateway
