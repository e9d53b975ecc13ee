import ExportKit.Text.Digits
import Mathlib.Data.List.Induction
import Mathlib.Tactic.IntervalCases

/-!
Decimal notation as a grammar. The texts that are read as numbers are those of the grammar, and
each is read as the number that it denotes.
-/
namespace ExportKit.Digits

/-- The ASCII digits in the order of their values. -/
def figures : List Char := "0123456789".toList

/-- A non-empty run of ASCII digits denotes a number, the last digit counting once and those before
it ten times as much. Leading zeros are allowed. -/
inductive Denotes : List Char → Nat → Prop
  | figure {c : Char} {value : Nat} (isFigure : figures[value]? = some c) : Denotes [c] value
  | more {text : List Char} {n : Nat} {c : Char} {value : Nat} (start : Denotes text n)
      (isFigure : figures[value]? = some c) : Denotes (text ++ [c]) (10 * n + value)

/-- The value of a digit is its distance from zero in ASCII. -/
theorem figures_eq_some_iff {c : Char} {value : Nat} :
    figures[value]? = some c ↔ c.isDigit ∧ value = c.toNat - '0'.toNat := by
  constructor
  · intro h
    obtain ⟨hLength, hFigure⟩ := List.getElem?_eq_some_iff.mp h
    have hTen : value < 10 := hLength
    subst hFigure
    interval_cases value <;> exact ⟨rfl, rfl⟩
  · rintro ⟨hDigit, rfl⟩
    have hAll : ∀ n < 58, 48 ≤ n → figures[n - '0'.toNat]? = some (Char.ofNat n) := by decide
    obtain ⟨hLow, hHigh⟩ := Char.isDigit_iff_toNat.mp hDigit
    have hFigure := hAll c.toNat (Nat.lt_succ_of_le hHigh) hLow
    rwa [Char.ofNat_toNat] at hFigure

/-- Digits are read as the number that they denote. -/
theorem Denotes.read?_eq {text : List Char} {n : Nat} (h : Denotes text n) :
    read? text = some n := by
  induction h with
  | figure isFigure =>
      obtain ⟨hDigit, rfl⟩ := figures_eq_some_iff.mp isFigure
      simp [read?, hDigit, Nat.ofDigitChars_cons]
  | more _ isFigure ih =>
      obtain ⟨hDigit, rfl⟩ := figures_eq_some_iff.mp isFigure
      rw [read?, Option.ite_none_right_eq_some, Option.some_inj] at ih
      obtain ⟨⟨-, hText⟩, hValue⟩ := ih
      simp only [read?, List.all_append, hText, List.all_cons, hDigit, List.all_nil,
        Nat.ofDigitChars_append, hValue, Nat.ofDigitChars_cons, Nat.ofDigitChars_nil]
      simp

/-- A text is read as the number that it denotes, and any other text is not read. -/
theorem read?_eq_some_iff {text : List Char} {n : Nat} : read? text = some n ↔ Denotes text n := by
  refine ⟨fun h => ?_, Denotes.read?_eq⟩
  rw [read?, Option.ite_none_right_eq_some, Option.some_inj] at h
  obtain ⟨⟨hNe, hDigits⟩, rfl⟩ := h
  induction text using List.reverseRecOn with
  | nil => exact absurd rfl hNe
  | append_singleton text c ih =>
      simp only [List.all_append, List.all_cons, List.all_nil, Bool.and_true,
        Bool.and_eq_true] at hDigits
      obtain ⟨hText, hDigit⟩ := hDigits
      have hFigure := figures_eq_some_iff.mpr ⟨hDigit, rfl⟩
      rw [Nat.ofDigitChars_append, Nat.ofDigitChars_cons, Nat.ofDigitChars_nil]
      by_cases hNil : text = []
      · subst hNil
        simpa using Denotes.figure hFigure
      · exact .more (ih hNil hText) hFigure

/-- A 64-bit number is read from the texts that denote it; longer numbers are not read. -/
theorem readUInt64?_eq_some_iff {text : List Char} {n : UInt64} :
    readUInt64? text = some n ↔ Denotes text n.toNat := by
  rw [readUInt64?, Option.bind_eq_some_iff]
  simp only [read?_eq_some_iff, Option.ite_none_right_eq_some, Option.some_inj]
  constructor
  · rintro ⟨value, hDenotes, hSize, rfl⟩
    rwa [UInt64.toNat_ofNat_of_lt' hSize]
  · intro hDenotes
    exact ⟨n.toNat, hDenotes, UInt64.toNat_lt_size n, UInt64.ofNat_toNat⟩

theorem Denotes.unique {text : List Char} {n n' : Nat} (h : Denotes text n)
    (h' : Denotes text n') : n = n' :=
  Option.some_inj.mp (h.read?_eq.symm.trans h'.read?_eq)

theorem Denotes.mem_figures {text : List Char} {n : Nat} (h : Denotes text n) :
    ∀ c ∈ text, c ∈ figures := by
  induction h with
  | figure isFigure => simpa using List.mem_of_getElem? isFigure
  | more _ isFigure ih =>
      intro c hc
      rcases List.mem_append.mp hc with hText | hLast
      · exact ih c hText
      · rw [List.mem_singleton.mp hLast]
        exact List.mem_of_getElem? isFigure

theorem Denotes.isDigit {text : List Char} {n : Nat} (h : Denotes text n) :
    ∀ c ∈ text, c.isDigit := by
  intro c hc
  obtain ⟨value, hFigure⟩ := List.getElem?_of_mem (h.mem_figures c hc)
  exact (figures_eq_some_iff.mp hFigure).1

/-- The digits that are written for a number denote it. -/
theorem denotes_write (n : Nat) : Denotes (write n) n :=
  read?_eq_some_iff.mp (read?_write n)

end ExportKit.Digits
