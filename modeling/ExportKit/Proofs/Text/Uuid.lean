import ExportKit.Text.Uuid

/-!
An identifier is read back from its text.
-/
namespace ExportKit.Uuid

theorem digit?_digitChar (digit : Fin 16) : digit? (digitChar digit) = some digit := by
  have hAll : ∀ digit, digit? (digitChar digit) = some digit := by decide
  exact hAll digit

theorem ofDigits?_digits (uuid : Uuid) :
    ofDigits? (uuid.digits.toList.map digitChar) = some uuid := by
  have hDigits : (uuid.digits.toList.map digitChar).mapM digit? = some uuid.digits.toList := by
    rw [List.mapM_map, show digit? ∘ digitChar = some from funext digit?_digitChar]
    simpa using List.mapM_pure (m := Option) (l := uuid.digits.toList) (f := id)
  rw [ofDigits?, hDigits]
  simp [Vector.toList]

/-- The groups of the hyphenated form make up the digits again. -/
theorem ofHyphenated?_groups {digits : List Char} (h : digits.length = 32) :
    ofHyphenated? (digits.take 8 ++ '-' :: ((digits.drop 8).take 4 ++ '-' ::
      ((digits.drop 12).take 4 ++ '-' :: ((digits.drop 16).take 4 ++ '-' :: digits.drop 20)))) =
        ofDigits? digits := by
  obtain ⟨a, rest, rfl, ha⟩ : ∃ a rest, digits = a ++ rest ∧ a.length = 8 :=
    ⟨digits.take 8, digits.drop 8, by simp, by simp [h]⟩
  obtain ⟨b, rest, rfl, hb⟩ : ∃ b rest', rest = b ++ rest' ∧ b.length = 4 :=
    ⟨rest.take 4, rest.drop 4, by simp, by simp at h ⊢; omega⟩
  obtain ⟨c, rest, rfl, hc⟩ : ∃ c rest', rest = c ++ rest' ∧ c.length = 4 :=
    ⟨rest.take 4, rest.drop 4, by simp, by simp at h ⊢; omega⟩
  obtain ⟨d, e, rfl, hd⟩ : ∃ d rest', rest = d ++ rest' ∧ d.length = 4 :=
    ⟨rest.take 4, rest.drop 4, by simp, by simp at h ⊢; omega⟩
  simp [ofHyphenated?, List.getElem?_append, List.drop_append,
    List.drop_of_length_le, ha, hb, hc, hd]

/-- An identifier is read back from its text. -/
theorem ofChars?_chars (uuid : Uuid) : ofChars? uuid.chars = some uuid := by
  have hLength : (uuid.digits.toList.map digitChar).length = 32 := by simp
  have hChars : uuid.chars.length = 36 := by simp [chars]
  rw [ofChars?, if_neg (by omega), if_pos hChars, chars, ofHyphenated?_groups hLength,
    ofDigits?_digits]

theorem chars_injective {left right : Uuid} (h : left.chars = right.chars) : left = right := by
  rw [← Option.some_inj, ← ofChars?_chars left, h, ofChars?_chars]

end ExportKit.Uuid
