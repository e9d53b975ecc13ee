import ExportKit.Proofs.Mail.Decoding
import ExportKit.Proofs.Text.Blank

/-!
Address values. The part in angle brackets at the end of a value is never altered, and the display
name before it is read back as it was. Main statement: `legible_encode`.
-/
namespace ExportKit.Mail.Address

open Header (IsForeign needsEncoding needsEncoding_iff)
open Reading (decodeWords? decodeWords?_encodeWords)

attribute [local instance] Reading.decidableForallMem Reading.decidableExistsMem

/-- A value that ends in an address in angle brackets, white space apart, and the text before it. -/
def EndsIn (value text address : List Char) : Prop :=
  ∃ inner trailing, address = '<' :: inner ++ ['>'] ∧ '<' ∉ inner ∧
    (∀ c ∈ trailing, Blank.isBlank c) ∧ value = text ++ address ++ trailing

/-- A text names someone: apart from the white space around it, and from one pair of double quotes
that encloses the rest, it is the name. -/
def Names (text name : List Char) : Prop :=
  ∃ left shown right, text = left ++ shown ++ right ∧ (∀ c ∈ left, Blank.isBlank c) ∧
    (∀ c ∈ right, Blank.isBlank c) ∧ Blank.IsTrimmed shown ∧
    (shown = '"' :: name ++ ['"'] ∨ shown = name ∧ ∀ inner, shown ≠ '"' :: inner ++ ['"'])

/-- A value of a display name, which may be empty, and an address that can stand as it is. -/
def IsAddressed (value name address : List Char) : Prop :=
  (∃ text, EndsIn value text address ∧ Names text name) ∧ ∀ c ∈ address, ¬IsForeign c

/-- A phrase that a reader takes for a name: the encoded words of the name, or the name itself if
it is printable ASCII. -/
def Shows (phrase name : List Char) : Prop :=
  ((∃ c ∈ name, IsForeign c) → decodeWords? phrase = some name) ∧
    ((¬∃ c ∈ name, IsForeign c) → phrase = name)

/-! Splitting. -/

/-- What follows the last opening bracket is split off, the bracket included. -/
theorem splitAtLastOpening_append {inner : List Char} (h : '<' ∉ inner) (text : List Char) :
    splitAtLastOpening (text ++ '<' :: inner) = some (text, '<' :: inner) := by
  have hMem : '<' ∈ text ++ '<' :: inner := List.mem_append_right _ List.mem_cons_self
  have hInner : ∀ c ∈ inner.reverse, decide (c ≠ '<') = true := by
    intro c hc
    exact decide_eq_true (ne_of_mem_of_not_mem (List.mem_reverse.mp hc) h)
  have hReverse : (text ++ '<' :: inner).reverse = inner.reverse ++ '<' :: text.reverse := by
    simp
  rw [splitAtLastOpening, if_pos hMem, hReverse]
  simp only [List.takeWhile_append_of_pos hInner, List.dropWhile_append_of_pos hInner]
  simp

theorem exists_lastOpening {text : List Char} (h : '<' ∈ text) :
    ∃ before inner, text = before ++ '<' :: inner ∧ '<' ∉ inner := by
  obtain ⟨inner, before, hText, hInner⟩ := List.eq_append_cons_of_mem (List.mem_reverse.mpr h)
  refine ⟨before.reverse, inner.reverse, ?_, fun hMem => hInner (List.mem_reverse.mp hMem)⟩
  rw [← List.reverse_reverse text, hText]
  simp

/-- A value is split just if it ends in an address in brackets. -/
theorem split?_eq_some_iff {value text address : List Char} :
    split? value = some (text, address) ↔ EndsIn value text address := by
  constructor
  · intro h
    rw [split?] at h
    split at h
    next hLast =>
      obtain ⟨trailing, hValue, hTrailing⟩ := Blank.exists_trimEnd value
      have hMem : '<' ∈ Blank.trimEnd value := by
        by_contra hNone
        simp [splitAtLastOpening, hNone] at h
      obtain ⟨before, inner, hTrim, hInner⟩ := exists_lastOpening hMem
      rw [hTrim, splitAtLastOpening_append hInner, Option.some.injEq, Prod.mk.injEq] at h
      obtain ⟨rfl, rfl⟩ := h
      have hEnd : ('<' :: inner).getLast? = some '>' := by
        rw [hTrim, List.getLast?_append_of_ne_nil _ (List.cons_ne_nil _ _)] at hLast
        exact hLast
      rcases List.eq_nil_or_concat inner with rfl | ⟨inner, c, rfl⟩
      · simp at hEnd
      · have hc : c = '>' := by simpa [List.getLast?_cons] using hEnd
        subst hc
        refine ⟨inner, trailing, by simp, ?_, hTrailing, ?_⟩
        · exact fun hOpening => hInner (by simp [hOpening])
        · rw [hValue, hTrim]
    next => cases h
  · rintro ⟨inner, trailing, rfl, hInner, hTrailing, rfl⟩
    have hText : text ++ ('<' :: inner ++ ['>']) = text ++ '<' :: (inner ++ ['>']) := rfl
    have hLast : (text ++ '<' :: (inner ++ ['>'])).getLast? = some '>' := by
      simp [List.getLast?_cons]
    have hTrim : Blank.trimEnd (text ++ ('<' :: inner ++ ['>']) ++ trailing) =
        text ++ '<' :: (inner ++ ['>']) := by
      rw [Blank.trimEnd_append_blank hTrailing, ← List.append_assoc,
        Blank.trimEnd_concat (by decide), List.append_assoc, hText]
    have hOpening : '<' ∉ inner ++ ['>'] := by simpa using hInner
    simp only [split?, hTrim, if_pos hLast]
    exact splitAtLastOpening_append hOpening text

/-! Names. -/

/-- Quotes around a name are taken off. -/
theorem unquote_quoted (name : List Char) : unquote ('"' :: name ++ ['"']) = name := by
  simp [unquote]

theorem unquote_eq_self {shown : List Char} (h : ∀ inner, shown ≠ '"' :: inner ++ ['"']) :
    unquote shown = shown := by
  fun_cases unquote shown with
  | case1 rest hLast =>
      obtain ⟨inner, rfl⟩ := List.getLast?_eq_some_iff.mp hLast
      exact absurd rfl (h inner)
  | case2 | case3 => rfl

/-- Apart from white space and quotes, the name is what a text shows. -/
theorem names_displayName (text : List Char) : Names text (displayName text) := by
  obtain ⟨left, right, hText, hLeft, hRight⟩ := Blank.exists_trim text
  refine ⟨left, Blank.trim text, right, hText, hLeft, hRight, Blank.isTrimmed_trim text, ?_⟩
  by_cases hQuoted : ∃ inner, Blank.trim text = '"' :: inner ++ ['"']
  · obtain ⟨inner, hShown⟩ := hQuoted
    left
    rw [displayName, hShown, unquote_quoted]
  · have hBare := not_exists.mp hQuoted
    right
    rw [displayName, unquote_eq_self hBare]
    exact ⟨rfl, hBare⟩

/-- A text names no one else. -/
theorem eq_displayName_of_names {text name : List Char} (h : Names text name) :
    name = displayName text := by
  obtain ⟨left, shown, right, rfl, hLeft, hRight, hShown, hName⟩ := h
  rw [displayName, Blank.trim_append hLeft hRight, Blank.trim_eq_self hShown]
  rcases hName with rfl | ⟨rfl, hBare⟩
  · rw [unquote_quoted]
  · rw [unquote_eq_self hBare]

/-! Values. -/

/-- A value of printable ASCII stays as it is. -/
theorem encode_of_plain {value : List Char} (h : ¬∃ c ∈ value, IsForeign c) :
    encode value = value := by
  rw [encode, if_neg fun hNeeds => h (needsEncoding_iff.mp hNeeds)]

/-- Only the display name is encoded if there is an address that can stand as it is. -/
theorem encode_of_endsIn {value text address : List Char} (hForeign : ∃ c ∈ value, IsForeign c)
    (hEnds : EndsIn value text address) (hAddress : ∀ c ∈ address, ¬IsForeign c) :
    encode value = if displayName text = [] then address
      else Header.encode (displayName text) ++ ' ' :: address := by
  have hPlain : ¬needsEncoding address := by
    rw [needsEncoding_iff]
    rintro ⟨c, hc, hBad⟩
    exact hAddress c hc hBad
  rw [encode, if_pos (needsEncoding_iff.mpr hForeign), split?_eq_some_iff.mpr hEnds]
  exact if_neg hPlain

/-- A value that has to be encoded and does not end in a plain address is encoded as a whole. -/
theorem encode_of_not_endsIn {value : List Char} (hForeign : ∃ c ∈ value, IsForeign c)
    (h : ¬∃ text address, EndsIn value text address ∧ ∀ c ∈ address, ¬IsForeign c) :
    encode value = Header.encodeWords value := by
  have hWhole := Header.encode_of_isForeign hForeign
  rw [encode, if_pos (needsEncoding_iff.mpr hForeign)]
  cases hSplit : split? value with
  | none => exact hWhole
  | some parts =>
      obtain ⟨text, address⟩ := parts
      have hAddress : needsEncoding address := by
        rw [needsEncoding_iff]
        by_contra hPlain
        exact h ⟨text, address, split?_eq_some_iff.mp hSplit,
          fun c hc hBad => hPlain ⟨c, hc, hBad⟩⟩
      simp only [hAddress, if_true]
      exact hWhole

theorem ne_nil_of_isForeign {text : List Char} (h : ∃ c ∈ text, IsForeign c) : text ≠ [] := by
  obtain ⟨c, hc, -⟩ := h
  exact List.ne_nil_of_mem hc

/-- A reader takes what is written of a name for that name. -/
theorem shows_encode (name : List Char) : Shows (Header.encode name) name := by
  constructor
  · intro hForeign
    rw [Header.encode_of_isForeign hForeign]
    exact decodeWords?_encodeWords (ne_nil_of_isForeign hForeign)
  · exact Header.encode_of_not_isForeign

/-- A value with a character that is not ASCII or a control character keeps the address at its end,
if it has one that can stand as it is, and before it stands what is read as the display name. All of
any other such value is read back. A value of printable ASCII is not changed. -/
theorem legible_encode (value : List Char) :
    ((∃ c ∈ value, IsForeign c) →
      (∀ name address, IsAddressed value name address →
        (name = [] → encode value = address) ∧
        (name ≠ [] → ∃ phrase, encode value = phrase ++ ' ' :: address ∧ Shows phrase name)) ∧
      ((¬∃ name address, IsAddressed value name address) →
        decodeWords? (encode value) = some value)) ∧
    ((¬∃ c ∈ value, IsForeign c) → encode value = value) := by
  refine ⟨fun hForeign => ⟨?_, ?_⟩, encode_of_plain⟩
  · rintro name address ⟨⟨text, hEnds, hNames⟩, hAddress⟩
    obtain rfl := eq_displayName_of_names hNames
    rw [encode_of_endsIn hForeign hEnds hAddress]
    constructor
    · intro hEmpty
      rw [if_pos hEmpty]
    · intro hName
      rw [if_neg hName]
      exact ⟨_, rfl, shows_encode _⟩
  · intro hNone
    have hEnds : ¬∃ text address, EndsIn value text address ∧ ∀ c ∈ address, ¬IsForeign c := by
      rintro ⟨text, address, hEnds, hAddress⟩
      exact hNone ⟨displayName text, address, ⟨text, hEnds, names_displayName text⟩, hAddress⟩
    rw [encode_of_not_endsIn hForeign hEnds]
    exact decodeWords?_encodeWords (ne_nil_of_isForeign hForeign)

/-- A quoted name is encoded without its quotes, and an address that has to be encoded takes the
name with it. -/
theorem legible_encode_zoe :
    (∃ c ∈ "\"Zoë\" <z@x>\t".toList, IsForeign c) ∧
      IsAddressed "\"Zoë\" <z@x>\t".toList "Zoë".toList "<z@x>".toList ∧
      (∃ phrase, encode "\"Zoë\" <z@x>\t".toList = phrase ++ ' ' :: "<z@x>".toList ∧
        Shows phrase "Zoë".toList) ∧
      (¬∃ name address, IsAddressed "Zoë <zoë@x>".toList name address) ∧
      decodeWords? (encode "Zoë <zoë@x>".toList) = some "Zoë <zoë@x>".toList ∧
      encode "Zoe <z@x>".toList = "Zoe <z@x>".toList := by
  have hForeign : ∃ c ∈ "\"Zoë\" <z@x>\t".toList, IsForeign c := by decide
  have hAddressed : IsAddressed "\"Zoë\" <z@x>\t".toList "Zoë".toList "<z@x>".toList :=
    ⟨⟨"\"Zoë\" ".toList, ⟨"z@x".toList, ['\t'], rfl, by decide, by decide, rfl⟩,
      ⟨[], "\"Zoë\"".toList, [' '], rfl, by decide, by decide, by decide, .inl rfl⟩⟩, by decide⟩
  have hNone : ¬∃ name address, IsAddressed "Zoë <zoë@x>".toList name address := by
    rintro ⟨name, address, ⟨text, hEnds, -⟩, hAddress⟩
    have hSplit : split? "Zoë <zoë@x>".toList = some ("Zoë ".toList, "<zoë@x>".toList) := by decide
    rw [← split?_eq_some_iff, hSplit, Option.some.injEq, Prod.mk.injEq] at hEnds
    exact hAddress 'ë' (hEnds.2 ▸ by decide) (.inl (by decide))
  have hWhole : ∃ c ∈ "Zoë <zoë@x>".toList, IsForeign c := by decide
  have hPlain : ¬∃ c ∈ "Zoe <z@x>".toList, IsForeign c := by decide
  exact ⟨hForeign, hAddressed, (((legible_encode _).1 hForeign).1 _ _ hAddressed).2 (by decide),
    hNone, ((legible_encode _).1 hWhole).2 hNone, (legible_encode _).2 hPlain⟩

end ExportKit.Mail.Address
