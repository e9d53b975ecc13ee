import ExportKit.Text.Blank
import Mathlib.Data.List.DropRight

/-!
Trimming takes the white space off the ends of a text, and nothing else.
-/
namespace ExportKit.Blank

/-- A text that neither begins nor ends with white space. -/
structure IsTrimmed (text : List Char) : Prop where
  head : ∀ c ∈ text.head?, ¬isBlank c
  last : ∀ c ∈ text.getLast?, ¬isBlank c

variable {left right text : List Char}

theorem trimEnd_eq_rdropWhile (text : List Char) : trimEnd text = text.rdropWhile isBlank := rfl

/-- Trimming leaves nothing just if there was nothing but white space. -/
theorem trimEnd_eq_nil_iff : trimEnd text = [] ↔ ∀ c ∈ text, isBlank c := List.rdropWhile_eq_nil_iff

/-- Trimming reaches into the left part only if nothing is left of the right one. -/
theorem trimEnd_append (left right : List Char) :
    trimEnd (left ++ right) =
      if trimEnd right = [] then trimEnd left else left ++ trimEnd right := by
  simp only [trimEnd, List.reverse_append, List.dropWhile_append, List.isEmpty_iff,
    List.reverse_eq_nil_iff]
  split
  next => rfl
  next => rw [List.reverse_append, List.reverse_reverse]

theorem trimEnd_append_blank (h : ∀ c ∈ right, isBlank c) (text : List Char) :
    trimEnd (text ++ right) = trimEnd text := by
  rw [trimEnd, List.reverse_append, List.dropWhile_append_of_pos, trimEnd]
  exact fun c hc => h c (List.mem_reverse.mp hc)

theorem trimEnd_eq_self (h : ∀ c ∈ text.getLast?, ¬isBlank c) : trimEnd text = text := by
  rw [trimEnd_eq_rdropWhile, List.rdropWhile_eq_self_iff]
  exact fun hNe => h _ (List.getLast?_eq_some_getLast hNe)

theorem trimEnd_concat {c : Char} (h : ¬isBlank c) (text : List Char) :
    trimEnd (text ++ [c]) = text ++ [c] := by
  apply trimEnd_eq_self
  rw [List.getLast?_concat]
  rintro _ ⟨⟩
  exact h

theorem getLast?_trimEnd (text : List Char) : ∀ c ∈ (trimEnd text).getLast?, ¬isBlank c := by
  rw [trimEnd_eq_rdropWhile]
  intro c hc
  obtain ⟨hNe, rfl⟩ := List.mem_getLast?_eq_getLast hc
  exact List.rdropWhile_last_not _ _ hNe

/-- What is cut off at the end is all white space. -/
theorem exists_trimEnd (text : List Char) :
    ∃ right, text = trimEnd text ++ right ∧ ∀ c ∈ right, isBlank c :=
  ⟨text.rtakeWhile isBlank, List.rdropWhile_append_rtakeWhile.symm,
    fun _ => List.mem_rtakeWhile_imp⟩

/-- White space around a text is not seen once the text is trimmed. -/
theorem trim_append (hLeft : ∀ c ∈ left, isBlank c) (hRight : ∀ c ∈ right, isBlank c)
    (text : List Char) : trim (left ++ text ++ right) = trim text := by
  rw [List.append_assoc, trim, List.dropWhile_append_of_pos hLeft, List.dropWhile_append, trim]
  split
  next hEmpty => rw [List.isEmpty_iff.mp hEmpty, List.dropWhile_eq_nil_iff.mpr hRight]
  next => exact trimEnd_append_blank hRight _

/-- A text that begins and ends with no white space stays as it is. -/
theorem trim_eq_self (h : IsTrimmed text) : trim text = text := by
  have hHead : text.dropWhile isBlank = text := by
    cases text with
    | nil => rfl
    | cons c rest => exact List.dropWhile_cons_of_neg (h.head c rfl)
  rw [trim, hHead, trimEnd_eq_self h.last]

/-- What is cut off at the ends is all white space. -/
theorem exists_trim (text : List Char) :
    ∃ left right, text = left ++ trim text ++ right ∧ (∀ c ∈ left, isBlank c) ∧
      ∀ c ∈ right, isBlank c := by
  obtain ⟨right, hEnd, hRight⟩ := exists_trimEnd (text.dropWhile isBlank)
  refine ⟨text.takeWhile isBlank, right, ?_, fun _ => List.mem_takeWhile_imp, hRight⟩
  rw [trim, List.append_assoc, ← hEnd, List.takeWhile_append_dropWhile]

theorem isTrimmed_trim (text : List Char) : IsTrimmed (trim text) := by
  refine ⟨?_, getLast?_trimEnd _⟩
  intro c hc
  rw [trim] at hc
  obtain ⟨right, hEnd, -⟩ := exists_trimEnd (text.dropWhile isBlank)
  have hHead := List.head?_dropWhile_not isBlank text
  rw [hEnd, List.mem_head?_append_of_mem_head? hc] at hHead
  simpa using hHead

/-- The texts without white space around them are those that trimming leaves alone. -/
theorem isTrimmed_iff : IsTrimmed text ↔ trim text = text := by
  constructor
  · exact trim_eq_self
  · intro h
    rw [← h]
    exact isTrimmed_trim text

instance (text : List Char) : Decidable (IsTrimmed text) := decidable_of_iff _ isTrimmed_iff.symm

/-- Trimming both ends takes white space off the start of a text that is trimmed at its end. -/
theorem exists_trimEnd_eq_append (text : List Char) :
    ∃ left, trimEnd text = left ++ trim text ∧ ∀ c ∈ left, isBlank c := by
  have hLeft : ∀ c ∈ text.takeWhile isBlank, isBlank c := fun _ => List.mem_takeWhile_imp
  have hText := trimEnd_append (text.takeWhile isBlank) (text.dropWhile isBlank)
  rw [List.takeWhile_append_dropWhile, trimEnd_eq_nil_iff.mpr hLeft] at hText
  split at hText
  next hEmpty => exact ⟨[], by rw [hText, trim, hEmpty, List.append_nil], by simp⟩
  next => exact ⟨text.takeWhile isBlank, hText, hLeft⟩

@[simp] theorem trim_trim (text : List Char) : trim (trim text) = trim text :=
  trim_eq_self (isTrimmed_trim text)

theorem mem_of_mem_trim {c : Char} (h : c ∈ trim text) : c ∈ text := by
  obtain ⟨left, right, hText, -⟩ := exists_trim text
  rw [hText]
  exact List.mem_append_left _ (List.mem_append_right _ h)

end ExportKit.Blank
