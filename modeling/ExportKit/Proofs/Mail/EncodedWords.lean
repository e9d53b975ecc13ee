import ExportKit.Proofs.Mail.Folding
import Mathlib.Data.List.Forall2

/-!
Texts that may not stand in a header as they are. Taken apart at its folds, the value that is written
for one is a list of encoded words that carry its bytes in turn, each of them whole characters. Main
statement: `carries_encode`.
-/
namespace ExportKit.Mail.Header

/-- What stands between the folds of a value, each line feed that a space follows being one. -/
def splitFolds : List Char → List (List Char)
  | [] => [[]]
  | '\n' :: ' ' :: rest => [] :: splitFolds rest
  | c :: rest => (splitFolds rest).modifyHead (c :: ·)

theorem splitFolds_cons {c : Char} (h : c ≠ '\n') (rest : List Char) :
    splitFolds (c :: rest) = (splitFolds rest).modifyHead (c :: ·) := by
  rw [splitFolds]
  rintro _ rfl _
  exact h rfl

/-- A fold ends the line before it. -/
theorem splitFolds_append_fold {line : List Char} (h : '\n' ∉ line) (rest : List Char) :
    splitFolds (line ++ fold ++ rest) = line :: splitFolds rest := by
  induction line with
  | nil => rfl
  | cons c line ih =>
      have hc : c ≠ '\n' := fun hEq => h (hEq ▸ List.mem_cons_self)
      have hLine := ih fun hMem => h (List.mem_cons_of_mem _ hMem)
      rw [List.cons_append, List.cons_append, splitFolds_cons hc, hLine, List.modifyHead_cons]

theorem splitFolds_of_not_mem {line : List Char} (h : '\n' ∉ line) : splitFolds line = [line] := by
  induction line with
  | nil => rfl
  | cons c line ih =>
      have hc : c ≠ '\n' := fun hEq => h (hEq ▸ List.mem_cons_self)
      have hLine := ih fun hMem => h (List.mem_cons_of_mem _ hMem)
      rw [splitFolds_cons hc, hLine, List.modifyHead_cons]

/-- Lines that are folded into a value are what stands between its folds. -/
theorem splitFolds_intercalate {lines : List (List Char)} (hNe : lines ≠ [])
    (h : ∀ line ∈ lines, '\n' ∉ line) : splitFolds (fold.intercalate lines) = lines := by
  induction lines with
  | nil => exact absurd rfl hNe
  | cons line lines ih =>
      have hLine := h line List.mem_cons_self
      cases lines with
      | nil => rw [List.intercalate_singleton, splitFolds_of_not_mem hLine]
      | cons next lines =>
          have hRest := ih (List.cons_ne_nil _ _) fun other hOther =>
            h other (List.mem_cons_of_mem _ hOther)
          rw [List.intercalate_cons_cons, splitFolds_append_fold hLine, hRest]

/-! Pieces. -/

/-- The pieces of a text make up the text. -/
theorem flatten_piecesFrom (taken : List Char) (size : Nat) (text : List Char) :
    (piecesFrom taken size text).flatten = taken ++ text := by
  induction text generalizing taken size with
  | nil =>
      rw [piecesFrom]
      split
      next hTaken => rw [hTaken, List.flatten_nil, List.append_nil]
      next => rw [List.flatten_singleton, List.append_nil]
  | cons c rest ih =>
      rw [piecesFrom]
      split
      next => rw [List.flatten_cons, ih, List.singleton_append]
      next => rw [ih, List.append_assoc, List.singleton_append]

/-- A piece that an encoded word can carry. -/
structure IsPiece (piece : List Char) : Prop where
  ne_nil : piece ≠ []
  length_le : (Utf8.encode piece).length ≤ wordBytes

/-- No character is too long for an encoded word. -/
theorem utf8Size_le_wordBytes (c : Char) : c.utf8Size ≤ wordBytes :=
  Nat.le_trans c.utf8Size_le_four (by decide)

/-- What is taken for a piece fits in a word at every step, and a piece ends only when a character
no longer fits, which leaves it with some. -/
theorem isPiece_of_mem_piecesFrom {taken text piece : List Char} {size : Nat}
    (hSize : (Utf8.encode taken).length = size) (hFits : size ≤ wordBytes)
    (h : piece ∈ piecesFrom taken size text) : IsPiece piece := by
  induction text generalizing taken size with
  | nil =>
      rw [piecesFrom] at h
      split at h
      next => cases h
      next hTaken =>
        obtain rfl := List.mem_singleton.mp h
        exact ⟨hTaken, hSize ▸ hFits⟩
  | cons c rest ih =>
      rw [piecesFrom] at h
      split at h
      next hFull =>
        rcases List.mem_cons.mp h with rfl | h
        · refine ⟨?_, hSize ▸ hFits⟩
          rintro rfl
          have hEmpty : size = 0 := hSize.symm
          have := utf8Size_le_wordBytes c
          omega
        · refine ih ?_ (utf8Size_le_wordBytes c) h
          simp
      next hRoom =>
        refine ih ?_ (Nat.not_lt.mp hRoom) h
        simp [hSize]

/-- Each piece of a text fits into an encoded word. -/
theorem isPiece_of_mem_pieces {text piece : List Char} (h : piece ∈ pieces text) : IsPiece piece :=
  isPiece_of_mem_piecesFrom rfl (Nat.zero_le _) h

theorem flatten_pieces (text : List Char) : (pieces text).flatten = text :=
  flatten_piecesFrom [] 0 text

theorem pieces_ne_nil {text : List Char} (h : text ≠ []) : pieces text ≠ [] := by
  intro hNil
  apply h
  rw [← flatten_pieces text, hNil, List.flatten_nil]

/-! Words. -/

/-- An encoded word that carries some bytes, which are the bytes of whole characters. -/
structure Carries (word : List Char) (bytes : List UInt8) : Prop where
  length_le : word.length ≤ 75
  form : ∃ digits, word = "=?utf-8?b?".toList ++ digits ++ "?=".toList ∧
    Base64.decode? digits = some bytes
  bytes_ne_nil : 1 ≤ bytes.length
  bytes_length_le : bytes.length ≤ 45
  whole : (Utf8.decode? bytes).isSome

/-- An encoded word has twelve characters beside the base64 text of its piece. -/
theorem length_word (piece : List Char) :
    (word piece).length = 12 + 4 * (((Utf8.encode piece).length + 2) / 3) := by
  have hOpening : wordOpening.length = 10 := by decide
  have hClosing : wordClosing.length = 2 := by decide
  rw [word, List.length_append, List.length_append, hOpening, hClosing, Base64.length_encode]
  omega

/-- The word of a piece carries the bytes of that piece. -/
theorem carries_word {piece : List Char} (h : IsPiece piece) :
    Carries (word piece) (Utf8.encode piece) := by
  have hMost : (Utf8.encode piece).length ≤ 45 := h.length_le
  refine ⟨?_, ⟨_, rfl, Base64.decode?_encode _⟩, ?_, hMost, by simp⟩
  · rw [length_word]
    omega
  · exact List.length_pos_iff.mpr fun hNil => h.ne_nil (Utf8.encode_injective hNil)

/-- Pieces are encoded one by one as they are together. -/
theorem flatten_map_encode (pieces : List (List Char)) :
    (pieces.map Utf8.encode).flatten = Utf8.encode pieces.flatten := by
  induction pieces with
  | nil => rfl
  | cons piece pieces ih =>
      rw [List.map_cons, List.flatten_cons, List.flatten_cons, Utf8.encode_append, ih]

/-- Between the folds stand the words of the pieces. -/
theorem splitFolds_encodeWords {text : List Char} (h : text ≠ []) :
    splitFolds (encodeWords text) = (pieces text).map word := by
  apply splitFolds_intercalate
  · simpa using pieces_ne_nil h
  · intro line hLine hMem
    obtain ⟨piece, -, rfl⟩ := List.mem_map.mp hLine
    exact absurd (isPlain_of_mem_word hMem) (by decide)

/-- A character that is not ASCII or is a control character. -/
def IsForeign (c : Char) : Prop := 128 ≤ c.toNat ∨ c.toNat < 32 ∨ c.toNat = 127

instance (c : Char) : Decidable (IsForeign c) := inferInstanceAs (Decidable (_ ∨ _))

theorem not_isForeign_of_isPlain {c : Char} (h : isPlain c) : ¬IsForeign c := by
  simp only [isPlain, Bool.and_eq_true, decide_eq_true_eq] at h
  rw [IsForeign]
  omega

/-- A text needs encoding just if it holds a character that is no printable ASCII. -/
theorem needsEncoding_iff {text : List Char} : needsEncoding text ↔ ∃ c ∈ text, IsForeign c := by
  rw [needsEncoding, List.any_eq_true]
  refine exists_congr fun c => and_congr_right fun _ => ?_
  simp only [isPlain, IsForeign, Bool.not_eq_true', Bool.and_eq_false_iff, decide_eq_false_iff_not]
  omega

theorem encode_of_isForeign {text : List Char} (h : ∃ c ∈ text, IsForeign c) :
    encode text = encodeWords text := by
  rw [encode, if_pos (needsEncoding_iff.mpr h)]

/-- Printable ASCII stands in a header as it is. -/
theorem encode_of_not_isForeign {text : List Char} (h : ¬∃ c ∈ text, IsForeign c) :
    encode text = text := by
  rw [encode, if_neg fun hNeeds => h (needsEncoding_iff.mp hNeeds)]

/-- The value of a text with a character that is not ASCII or a control character is made of encoded
words. They carry pieces of the text of whole characters, which together are the text. Any other
text is its own value. -/
theorem carries_encode (text : List Char) :
    ((∃ c ∈ text, IsForeign c) → ∃ carried, carried ≠ [] ∧
      List.Forall₂ Carries (splitFolds (encode text)) carried ∧
      carried.flatten = Utf8.encode text) ∧
    ((¬∃ c ∈ text, IsForeign c) → encode text = text) := by
  constructor
  · intro hForeign
    have hNe : text ≠ [] := by
      rintro rfl
      simp at hForeign
    rw [encode, if_pos (needsEncoding_iff.mpr hForeign), splitFolds_encodeWords hNe]
    refine ⟨(pieces text).map Utf8.encode, by simpa using pieces_ne_nil hNe, ?_, ?_⟩
    · rw [List.forall₂_map_left_iff, List.forall₂_map_right_iff, List.forall₂_same]
      exact fun piece hPiece => carries_word (isPiece_of_mem_pieces hPiece)
    · rw [flatten_map_encode, flatten_pieces]
  · intro hPlain
    rw [encode, if_neg fun h => hPlain (needsEncoding_iff.mp h)]

/-- A word has room for 22 characters of two bytes, so 60 of them take three words. -/
theorem carries_encode_sixty :
    (∃ c ∈ List.replicate 60 'é', IsForeign c) ∧
      (splitFolds (encode (List.replicate 60 'é'))).length = 3 ∧
      (∃ carried, carried ≠ [] ∧
        List.Forall₂ Carries (splitFolds (encode (List.replicate 60 'é'))) carried ∧
        carried.flatten = Utf8.encode (List.replicate 60 'é')) ∧
      (¬∃ c ∈ "PDF: a.pdf".toList, IsForeign c) ∧
      encode "PDF: a.pdf".toList = "PDF: a.pdf".toList := by
  have hForeign : ∃ c ∈ List.replicate 60 'é', IsForeign c := needsEncoding_iff.mp (by decide)
  have hPlain : ¬∃ c ∈ "PDF: a.pdf".toList, IsForeign c :=
    fun h => absurd (needsEncoding_iff.mpr h) (by decide)
  exact ⟨hForeign, by decide +kernel, (carries_encode _).1 hForeign, hPlain,
    (carries_encode _).2 hPlain⟩

end ExportKit.Mail.Header
