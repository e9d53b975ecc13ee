import ExportKit.Proofs.Text.Base64
import ExportKit.Proofs.Text.Lines
import Mathlib.Data.List.Forall2

/-!
Base64 text in lines. A full line has room for 57 bytes, which is a whole number of groups, so each
line is base64 text of its own and can be decoded with the others or alone. Main statement:
`wraps_encodeLines`.
-/
namespace ExportKit.Base64

/-- The bytes that a full line carries. -/
def lineBytes : Nat := 57

/-- Groups of three bytes are encoded on their own. -/
theorem encode_append {left : List UInt8} (h : 3 ∣ left.length) (right : List UInt8) :
    encode (left ++ right) = encode left ++ encode right := by
  induction left using encode.induct with
  | case1 => rfl
  | case2 a => exact absurd h (by simp)
  | case3 a b => exact absurd h (by simp)
  | case4 a b c rest ih =>
      have hRest : 3 ∣ rest.length := by
        simp only [List.length_cons] at h
        omega
      simp only [List.cons_append, encode, ih hRest]

theorem encode_eq_nil_iff {bytes : List UInt8} : encode bytes = [] ↔ bytes = [] := by
  rw [← List.length_eq_zero_iff, length_encode, ← List.length_eq_zero_iff]
  omega

/-- The bytes of a full line are encoded apart from those after them, without padding between. -/
theorem encode_take_append_drop (bytes : List UInt8) :
    encode (bytes.take lineBytes) ++ encode (bytes.drop lineBytes) = encode bytes := by
  rcases Nat.lt_or_ge bytes.length lineBytes with hShort | hLong
  · have hLe := Nat.le_of_lt hShort
    rw [List.take_of_length_le hLe, List.drop_of_length_le hLe, encode, List.append_nil]
  · have hGroups : 3 ∣ (bytes.take lineBytes).length := by
      rw [List.length_take_of_le hLong]
      decide
    rw [← encode_append hGroups, List.take_append_drop]

/-- The bytes of a full line fill it. -/
theorem length_encode_take {bytes : List UInt8} (h : lineBytes ≤ bytes.length) :
    (encode (bytes.take lineBytes)).length = lineLength := by
  rw [length_encode, List.length_take_of_le h]
  rfl

/-- The first line ends just where the digits of its bytes do. -/
theorem take_lineLength_encode (bytes : List UInt8) :
    (encode bytes).take lineLength = encode (bytes.take lineBytes) ∧
      (encode bytes).drop lineLength = encode (bytes.drop lineBytes) := by
  rcases Nat.lt_or_ge bytes.length lineBytes with hShort | hLong
  · have hLe := Nat.le_of_lt hShort
    have hFits : (encode bytes).length ≤ lineLength := by
      rw [length_encode]
      simp only [lineBytes, lineLength] at *
      omega
    rw [List.take_of_length_le hLe, List.drop_of_length_le hLe]
    exact ⟨List.take_of_length_le hFits, List.drop_of_length_le hFits⟩
  · have hFull := length_encode_take hLong
    rw [← encode_take_append_drop bytes]
    exact ⟨List.take_left' hFull, List.drop_left' hFull⟩

theorem lines_nil : lines [] = [] := by
  rw [lines, encode, wrap, if_pos (.inr rfl)]

/-- The first line carries the first bytes, and the lines after it the rest. -/
theorem lines_of_ne_nil {bytes : List UInt8} (h : bytes ≠ []) :
    lines bytes = encode (bytes.take lineBytes) :: lines (bytes.drop lineBytes) := by
  obtain ⟨hFirst, hRest⟩ := take_lineLength_encode bytes
  have hDigits : ¬(lineLength = 0 ∨ encode bytes = []) := by
    rintro (hWidth | hNil)
    · exact absurd hWidth (by decide)
    · exact h (encode_eq_nil_iff.mp hNil)
  rw [lines, wrap, if_neg hDigits, hFirst, hRest, lines]

/-- Only no bytes at all give no line. -/
theorem lines_eq_nil_iff {bytes : List UInt8} : lines bytes = [] ↔ bytes = [] := by
  constructor
  · intro hLines
    by_contra hBytes
    rw [lines_of_ne_nil hBytes] at hLines
    exact List.cons_ne_nil _ _ hLines
  · rintro rfl
    exact lines_nil

/-- Bytes are taken line by line: none are left, or those of the last line, or more. -/
theorem lines_induction {motive : List UInt8 → Prop} (nil : motive [])
    (last : ∀ bytes, bytes ≠ [] → bytes.length ≤ lineBytes → motive bytes)
    (full : ∀ bytes, lineBytes < bytes.length → motive (bytes.drop lineBytes) → motive bytes)
    (bytes : List UInt8) : motive bytes := by
  induction hLength : bytes.length using Nat.strongRecOn generalizing bytes with
  | _ length ih =>
      by_cases hNil : bytes = []
      · exact hNil ▸ nil
      rcases Nat.lt_or_ge lineBytes bytes.length with hLong | hShort
      · have hDrop : (bytes.drop lineBytes).length < length := by
          rw [List.length_drop, hLength]
          simp only [lineBytes] at *
          omega
        exact full bytes hLong (ih _ hDrop _ rfl)
      · exact last bytes hNil hShort

/-- Bytes that fit on a line are on one line. -/
theorem lines_of_length_le {bytes : List UInt8} (hNe : bytes ≠ []) (h : bytes.length ≤ lineBytes) :
    lines bytes = [encode bytes] := by
  rw [lines_of_ne_nil hNe, List.take_of_length_le h, List.drop_of_length_le h, lines_nil]

theorem lines_of_lt {bytes : List UInt8} (h : lineBytes < bytes.length) :
    lines bytes = encode (bytes.take lineBytes) :: lines (bytes.drop lineBytes) :=
  lines_of_ne_nil (List.ne_nil_of_length_pos (Nat.zero_lt_of_lt h))

theorem lines_drop_ne_nil {bytes : List UInt8} (h : lineBytes < bytes.length) :
    lines (bytes.drop lineBytes) ≠ [] := by
  rw [Ne, lines_eq_nil_iff, List.drop_eq_nil_iff]
  exact Nat.not_le.mpr h

/-- Every line but the last is full. -/
theorem length_of_mem_dropLast_lines (bytes : List UInt8) :
    ∀ line ∈ (lines bytes).dropLast, line.length = lineLength := by
  induction bytes using lines_induction with
  | nil => simp [lines_nil]
  | last bytes hNe h => simp [lines_of_length_le hNe h]
  | full bytes h ih =>
      have hFull := length_encode_take (Nat.le_of_lt h)
      rw [lines_of_lt h, List.dropLast_cons_of_ne_nil (lines_drop_ne_nil h)]
      exact List.forall_mem_cons.mpr ⟨hFull, ih⟩

/-- The last line is not empty, and no longer than a full one. -/
theorem length_of_getLast?_lines (bytes : List UInt8) :
    ∀ line ∈ (lines bytes).getLast?, 1 ≤ line.length ∧ line.length ≤ lineLength := by
  induction bytes using lines_induction with
  | nil => simp [lines_nil]
  | last bytes hNe h =>
      have hLength := length_encode bytes
      have hPos := List.length_pos_iff.mpr hNe
      rw [lines_of_length_le hNe h]
      simp only [List.getLast?_singleton, Option.mem_some_iff, forall_eq', lineBytes,
        lineLength] at *
      omega
  | full bytes h ih =>
      rw [lines_of_lt h, List.getLast?_cons_of_ne_nil (lines_drop_ne_nil h)]
      exact ih

/-- Each line carries bytes of its own, which together are all of them. -/
theorem exists_carried (bytes : List UInt8) :
    ∃ carried, List.Forall₂ (fun line part => decode? line = some part) (lines bytes) carried ∧
      carried.flatten = bytes := by
  induction bytes using lines_induction with
  | nil => exact ⟨[], by rw [lines_nil]; exact .nil, rfl⟩
  | last bytes hNe h =>
      rw [lines_of_length_le hNe h]
      exact ⟨[bytes], .cons (decode?_encode bytes) .nil, List.flatten_singleton⟩
  | full bytes h ih =>
      obtain ⟨carried, hCarried, hBytes⟩ := ih
      rw [lines_of_lt h]
      refine ⟨bytes.take lineBytes :: carried, .cons (decode?_encode _) hCarried, ?_⟩
      rw [List.flatten_cons, hBytes, List.take_append_drop]

theorem digit_mem_alphabet {n : Nat} (h : n < 64) : digit n ∈ alphabet :=
  (List.mem_cons.mp (digit_mem n)).resolve_left (digit_ne_padding h)

/-- Padding stands only at the end. -/
theorem exists_digits_padding (bytes : List UInt8) :
    ∃ digits padding, encode bytes = digits ++ List.replicate padding '=' ∧ padding ≤ 2 ∧
      ∀ c ∈ digits, c ∈ alphabet := by
  induction bytes using encode.induct with
  | case1 => exact ⟨[], 0, rfl, by decide, by simp⟩
  | case2 a =>
      have ha := a.toNat_lt
      refine ⟨[_, _], 2, rfl, Nat.le_refl _, ?_⟩
      simp only [List.forall_mem_cons, List.not_mem_nil, false_implies, implies_true, and_true]
      exact ⟨digit_mem_alphabet (by omega), digit_mem_alphabet (by omega)⟩
  | case3 a b =>
      have ha := a.toNat_lt
      have hb := b.toNat_lt
      refine ⟨[_, _, _], 1, rfl, by decide, ?_⟩
      simp only [List.forall_mem_cons, List.not_mem_nil, false_implies, implies_true, and_true]
      exact ⟨digit_mem_alphabet (by omega), digit_mem_alphabet (by omega),
        digit_mem_alphabet (by omega)⟩
  | case4 a b c rest ih =>
      have ha := a.toNat_lt
      have hb := b.toNat_lt
      have hc := c.toNat_lt
      obtain ⟨digits, padding, hEncode, hPadding, hDigits⟩ := ih
      refine ⟨_ :: _ :: _ :: _ :: digits, padding, by rw [encode, hEncode]; rfl, hPadding, ?_⟩
      simp only [List.forall_mem_cons]
      exact ⟨digit_mem_alphabet (by omega), digit_mem_alphabet (by omega),
        digit_mem_alphabet (by omega), digit_mem_alphabet (by omega), hDigits⟩

/-- Lines of base64 text that carry some bytes, together and each for itself. -/
structure Wraps (lines : List (List Char)) (bytes : List UInt8) : Prop where
  length_full : ∀ line ∈ lines.dropLast, line.length = 76
  length_last : ∀ line ∈ lines.getLast?, 1 ≤ line.length ∧ line.length ≤ 76
  padded : ∃ digits padding, lines.flatten = digits ++ List.replicate padding '=' ∧
    padding ≤ 2 ∧ ∀ c ∈ digits, c ∈ alphabet
  groups : 4 ∣ lines.flatten.length
  joined : decode? lines.flatten = some bytes
  single : ∃ carried, List.Forall₂ (fun line part => decode? line = some part) lines carried ∧
    carried.flatten = bytes

/-- The lines are as long as they may be, and each carries its bytes for itself. -/
theorem wraps_lines (bytes : List UInt8) : Wraps (lines bytes) bytes where
  length_full := length_of_mem_dropLast_lines bytes
  length_last := length_of_getLast?_lines bytes
  padded := by
    rw [flatten_lines]
    exact exists_digits_padding bytes
  groups := by
    rw [flatten_lines, length_encode]
    exact Nat.dvd_mul_right _ _
  joined := by
    rw [flatten_lines]
    exact decode?_encode bytes
  single := exists_carried bytes

/-- The lines of encoded text are those that are written. -/
theorem split_encodeLines (bytes : List UInt8) : Lines.split (encodeLines bytes) = lines bytes := by
  have hNewline : ∀ line ∈ lines bytes, '\n' ∉ line := by
    intro line hLine hMem
    exact absurd (mem_alphabet_of_mem_lines hLine hMem) (by decide)
  have hSplit := Lines.split_join_append hNewline []
  rwa [List.append_nil, Lines.split, List.append_nil] at hSplit

/-- Encoded text is a sequence of lines, each ended by a line feed, and there are none if there are
no bytes. All but the last are full, and the bytes are read back both from the joined lines and line
by line. -/
theorem wraps_encodeLines (bytes : List UInt8) :
    Lines.join (Lines.split (encodeLines bytes)) = encodeLines bytes ∧
      (Lines.split (encodeLines bytes) = [] ↔ bytes = []) ∧
      Wraps (Lines.split (encodeLines bytes)) bytes := by
  rw [split_encodeLines]
  exact ⟨rfl, lines_eq_nil_iff, wraps_lines bytes⟩

end ExportKit.Base64
