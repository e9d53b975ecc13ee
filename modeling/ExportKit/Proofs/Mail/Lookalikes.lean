import ExportKit.Proofs.Mail.Decoding
import Mathlib.Algebra.Order.BigOperators.Group.List
import Mathlib.Algebra.Order.Group.Nat
import Mathlib.Data.List.Flatten

/-!
Texts that look like encoded words. A text of printable ASCII passes through even if it is an encoded
word, and so it has the value of the text that the word carries. No other two texts share a value.
Main statement: `distinguishes_encode`.
-/
namespace ExportKit.Mail

namespace Header

/-- A value that is the encoded word of a text, all of which fits in it. -/
structure IsWordOf (value text : List Char) : Prop where
  eq_word : value = word text
  foreign : ∃ c ∈ text, IsForeign c
  length_le : (Utf8.encode text).length ≤ wordBytes

/-! Texts that fit in one word. -/

/-- A text that fits into one piece is not divided. -/
theorem piecesFrom_of_length_le {taken text : List Char} {size : Nat} (hNe : taken ++ text ≠ [])
    (hFits : size + (Utf8.encode text).length ≤ wordBytes) :
    piecesFrom taken size text = [taken ++ text] := by
  induction text generalizing taken size with
  | nil =>
      rw [List.append_nil] at hNe ⊢
      rw [piecesFrom, if_neg hNe]
  | cons c rest ih =>
      rw [Utf8.encode_cons, List.length_append, String.length_utf8EncodeChar] at hFits
      rw [piecesFrom, if_neg (by omega), ih (by simp) (by omega), List.append_assoc,
        List.singleton_append]

/-- A text that fits into one word is encoded as that word. -/
theorem encodeWords_of_length_le {text : List Char} (hNe : text ≠ [])
    (hFits : (Utf8.encode text).length ≤ wordBytes) : encodeWords text = word text := by
  have hPieces : pieces text = [text] :=
    piecesFrom_of_length_le hNe (by rwa [Nat.zero_add])
  rw [encodeWords, hPieces, List.map_singleton, List.intercalate_singleton]

theorem ne_nil_of_foreign {text : List Char} (h : ∃ c ∈ text, IsForeign c) : text ≠ [] := by
  obtain ⟨c, hc, -⟩ := h
  exact List.ne_nil_of_mem hc

/-- An encoded word is printable ASCII, and so it is not encoded again. -/
theorem encode_word (piece : List Char) : encode (word piece) = word piece := by
  apply encode_of_not_isForeign
  rintro ⟨c, hc, hForeign⟩
  exact not_isForeign_of_isPlain (isPlain_of_mem_word hc) hForeign

/-- A text and the word that it is encoded as are encoded alike. -/
theorem IsWordOf.encode_eq {value text : List Char} (h : IsWordOf value text) :
    encode value = encode text := by
  rw [h.eq_word, encode_word, encode_of_isForeign h.foreign,
    encodeWords_of_length_le (ne_nil_of_foreign h.foreign) h.length_le]

/-! Values that two texts share. -/

/-- Texts that are encoded are told apart by what their words carry. -/
theorem eq_of_encodeWords_eq {first second : List Char}
    (h : encodeWords first = encodeWords second) : first = second := by
  rw [← Reading.decodePhrase_encodeWords first, h, Reading.decodePhrase_encodeWords]

/-- A text without line feeds that is the value of another text is a single encoded word. -/
theorem isWordOf_of_encodeWords {text value : List Char} (hForeign : ∃ c ∈ text, IsForeign c)
    (hPlain : ¬∃ c ∈ value, IsForeign c) (h : encodeWords text = value) : IsWordOf value text := by
  have hNewline : '\n' ∉ value := fun hMem => hPlain ⟨'\n', hMem, by decide⟩
  have hLines : (pieces text).map word = [value] := by
    rw [← splitFolds_encodeWords (ne_nil_of_foreign hForeign), h, splitFolds_of_not_mem hNewline]
  obtain ⟨piece, hPieces, hWord⟩ := List.map_eq_singleton_iff.mp hLines
  have hText : piece = text := by
    rw [← flatten_pieces text, hPieces, List.flatten_singleton]
  subst hText
  have hPiece : piece ∈ pieces piece := by
    rw [hPieces]
    exact List.mem_singleton_self piece
  exact ⟨hWord.symm, hForeign, (isPiece_of_mem_pieces hPiece).length_le⟩

/-- Two texts are encoded alike just if they are equal or one is the word of the other. -/
theorem encode_eq_encode_iff {first second : List Char} : encode first = encode second ↔
    first = second ∨ IsWordOf first second ∨ IsWordOf second first := by
  constructor
  · intro h
    by_cases hFirst : ∃ c ∈ first, IsForeign c
    · by_cases hSecond : ∃ c ∈ second, IsForeign c
      · rw [encode_of_isForeign hFirst, encode_of_isForeign hSecond] at h
        exact .inl (eq_of_encodeWords_eq h)
      · rw [encode_of_isForeign hFirst, encode_of_not_isForeign hSecond] at h
        exact .inr (.inr (isWordOf_of_encodeWords hFirst hSecond h))
    · by_cases hSecond : ∃ c ∈ second, IsForeign c
      · rw [encode_of_not_isForeign hFirst, encode_of_isForeign hSecond] at h
        exact .inr (.inl (isWordOf_of_encodeWords hSecond hFirst h.symm))
      · rw [encode_of_not_isForeign hFirst, encode_of_not_isForeign hSecond] at h
        exact .inl h
  · rintro (rfl | h | h)
    · rfl
    · exact h.encode_eq
    · exact h.encode_eq.symm

end Header

namespace Reading

open Header (word length_word)

/-! Reading words. -/

/-- Only what is written as an encoded word is read as one. -/
theorem wordText?_eq_some_iff {run text : List Char} : wordText? run = some text ↔ run = word text := by
  constructor
  · intro h
    obtain ⟨bytes, hCarried, hText⟩ := Option.bind_eq_some_iff.mp h
    simp only [carried?, Option.bind_eq_bind, Option.bind_eq_some_iff] at hCarried
    obtain ⟨rest, hOpening, digits, hClosing, hDigits⟩ := hCarried
    rw [List.isPrefixOf?_eq_some_iff_append_eq] at hOpening
    rw [List.isSuffixOf?_eq_some_iff_append_eq] at hClosing
    rw [word, Utf8.encode_of_decode? hText, Base64.encode_of_decode? hDigits, List.append_assoc,
      ← hOpening, ← hClosing]
    rfl
  · rintro rfl
    exact wordText?_word text

theorem length_lt_length_word (piece : List Char) : piece.length < (word piece).length := by
  have hBytes := Utf8.length_le_length_encode piece
  rw [length_word]
  omega

/-! Reading a phrase. -/

/-- What is read of a run. -/
def readRun (run : List Char) : List Char := (wordText? run).getD run

theorem length_readRun_le (run : List Char) : (readRun run).length ≤ run.length := by
  rw [readRun]
  cases h : wordText? run with
  | none => exact Nat.le_refl _
  | some text =>
      rw [wordText?_eq_some_iff.mp h]
      exact Nat.le_of_lt (length_lt_length_word text)

/-- Reading an encoded word makes it shorter. -/
theorem length_readRun_word (piece : List Char) :
    (readRun (word piece)).length < (word piece).length := by
  rw [readRun, wordText?_word]
  exact length_lt_length_word piece

theorem dropGaps_sublist (runs : List (List Char)) : (dropGaps runs).Sublist runs := by
  fun_induction dropGaps runs with
  | case1 first gap next rest _ ih => exact (ih.cons gap).cons_cons first
  | case2 first gap next rest _ ih => exact ih.cons_cons first
  | case3 => exact List.Sublist.refl _

/-- A run is left out only after a word, so a word is left if there was one. -/
theorem exists_word_mem_dropGaps {runs : List (List Char)} (h : ∃ piece, word piece ∈ runs) :
    ∃ piece, word piece ∈ dropGaps runs := by
  obtain ⟨piece, hPiece⟩ := h
  fun_induction dropGaps runs with
  | case1 first gap next rest hWords =>
      obtain ⟨hFirst, -⟩ := Bool.and_eq_true_iff.mp hWords
      obtain ⟨text, hText⟩ := Option.isSome_iff_exists.mp hFirst
      obtain rfl := wordText?_eq_some_iff.mp hText
      exact ⟨text, List.mem_cons_self⟩
  | case2 first gap next rest _ ih =>
      rcases List.mem_cons.mp hPiece with rfl | hRest
      · exact ⟨piece, List.mem_cons_self⟩
      · obtain ⟨other, hOther⟩ := ih hRest
        exact ⟨other, List.mem_cons_of_mem first hOther⟩
  | case3 => exact ⟨piece, hPiece⟩

/-- A phrase gets shorter when a word in it is read. -/
theorem length_decodePhrase_lt {phrase : List Char} (h : ∃ piece, word piece ∈ runs phrase) :
    (decodePhrase phrase).length < phrase.length := by
  obtain ⟨piece, hPiece⟩ := exists_word_mem_dropGaps h
  have hRead : (decodePhrase phrase).length < (dropGaps (runs phrase)).flatten.length := by
    rw [decodePhrase, List.length_flatMap, List.length_flatten]
    exact List.sum_lt_sum _ _ (fun run _ => length_readRun_le run)
      ⟨word piece, hPiece, length_readRun_word piece⟩
  have hKept := (dropGaps_sublist (runs phrase)).flatten.length_le
  rw [flatten_runs] at hKept
  exact Nat.lt_of_lt_of_le hRead hKept

/-- A phrase is read as it stands just if no run of it is an encoded word. -/
theorem decodePhrase_eq_self_iff {phrase : List Char} :
    decodePhrase phrase = phrase ↔ ∀ run ∈ runs phrase, ∀ piece, run ≠ word piece := by
  constructor
  · rintro h run hRun piece rfl
    have hLength := length_decodePhrase_lt ⟨piece, hRun⟩
    rw [h] at hLength
    exact Nat.lt_irrefl _ hLength
  · intro h
    apply decodePhrase_of_runs
    intro run hRun
    apply Option.eq_none_iff_forall_ne_some.mpr
    exact fun piece hPiece => h run hRun piece (wordText?_eq_some_iff.mp hPiece)

end Reading

namespace Header

open Reading (decodePhrase runs)

/-- Two different texts have the same value just if one of them is an encoded word that carries the
other. A reader that decodes encoded words recovers each text that was encoded, and one that passed
through just if no part of it between blanks is an encoded word. -/
theorem distinguishes_encode (first second : List Char) :
    (encode first = encode second ↔
      first = second ∨ IsWordOf first second ∨ IsWordOf second first) ∧
    (decodePhrase (encode first) = first ↔
      (∃ c ∈ first, IsForeign c) ∨ ∀ run ∈ runs first, ∀ piece, run ≠ word piece) := by
  refine ⟨encode_eq_encode_iff, ?_⟩
  by_cases hForeign : ∃ c ∈ first, IsForeign c
  · rw [encode_of_isForeign hForeign, Reading.decodePhrase_encodeWords]
    exact iff_of_true rfl (.inl hForeign)
  · rw [encode_of_not_isForeign hForeign, Reading.decodePhrase_eq_self_iff, or_iff_right hForeign]

/-- The encoded word of a letter passes through as the value that the letter has. -/
theorem not_injective_encode :
    encode "ü".toList = encode "=?utf-8?b?w7w=?=".toList ∧ ¬Function.Injective encode := by
  have hSame : encode "ü".toList = encode "=?utf-8?b?w7w=?=".toList := by decide
  exact ⟨hSame, fun hInjective => absurd (hInjective hSame) (by decide)⟩

end Header

end ExportKit.Mail
