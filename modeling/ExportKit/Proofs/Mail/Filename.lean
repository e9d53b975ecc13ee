import ExportKit.Proofs.Mail.Folding

/-!
The name of an attached file is read back from its parameter, whichever of the two forms it has.
Main statement: `reads_back_parameter`.
-/
namespace ExportKit.Mail.Filename

open Header (isPlain)

/-- The letters, digits and signs that stand for themselves in the extended form. -/
def attributeCharacters : List Char :=
  ("ABCDEFGHIJKLMNOPQRSTUVWXYZ" ++ "abcdefghijklmnopqrstuvwxyz" ++ "0123456789" ++
    "!#$&+-.^_\x60|~").toList

def hexDigits : List Char := "0123456789ABCDEF".toList

/-- How a byte is written in the extended form. -/
inductive IsByteText : List Char → Prop
  | attribute {c : Char} (mem : c ∈ attributeCharacters) : IsByteText [c]
  | hex {high low : Char} (mem_high : high ∈ hexDigits) (mem_low : low ∈ hexDigits) :
      IsByteText ['%', high, low]

/-- The plain form of the parameter. -/
def IsQuoted (parameter : List Char) : Prop :=
  ∃ name, parameter = "filename=\"".toList ++ name ++ ['"'] ∧ ∀ c ∈ name, c ≠ '"' ∧ c ≠ '\\'

/-- The extended form of the parameter. -/
def IsExtended (parameter : List Char) : Prop :=
  ∃ texts : List (List Char), parameter = "filename*=utf-8''".toList ++ texts.flatten ∧
    ∀ text ∈ texts, IsByteText text

/-- The bytes of a percent-encoded text. -/
def percentDecode? : List Char → Option (List UInt8)
  | [] => some []
  | '%' :: high :: low :: rest => do
    let high ← hexDigits.idxOf? high
    let low ← hexDigits.idxOf? low
    let bytes ← percentDecode? rest
    some (UInt8.ofNat (high * 16 + low) :: bytes)
  | c :: rest =>
    if c ∈ attributeCharacters then (percentDecode? rest).map (UInt8.ofNat c.toNat :: ·) else none

/-- The file name that a parameter gives: what stands between the quotes, or the text whose bytes
are percent-encoded. -/
def read? (parameter : List Char) : Option (List Char) :=
  match "filename=\"".toList.isPrefixOf? parameter with
  | some rest => ['"'].isSuffixOf? rest
  | none => do
    let value ← "filename*=utf-8''".toList.isPrefixOf? parameter
    let bytes ← percentDecode? value
    Utf8.decode? bytes

/-! Percent-encoding. -/

theorem mem_attributeCharacters_of_isAttribute {c : Char} (h : isAttribute c) :
    c ∈ attributeCharacters := by
  have hAll : ∀ n < 128, isAttribute (Char.ofNat n) → Char.ofNat n ∈ attributeCharacters := by
    decide +kernel
  have hPlain := isPlain_of_isAttribute h
  simp only [isPlain, Bool.and_eq_true, decide_eq_true_eq] at hPlain
  have hChar := hAll c.toNat (by omega)
  rw [Char.ofNat_toNat] at hChar
  exact hChar h

theorem hexDigit_mem {n : Nat} (h : n < 16) : hexDigit n ∈ hexDigits := by
  have hAll : ∀ n < 16, hexDigit n ∈ hexDigits := by decide
  exact hAll n h

theorem idxOf?_hexDigit {n : Nat} (h : n < 16) : hexDigits.idxOf? (hexDigit n) = some n := by
  have hAll : ∀ n < 16, hexDigits.idxOf? (hexDigit n) = some n := by decide
  exact hAll n h

/-- A byte is written as the character that it is, or as three characters that give its value. -/
theorem isByteText_encodeByte (byte : UInt8) : IsByteText (encodeByte byte) := by
  have hByte := byte.toNat_lt
  rw [encodeByte]
  split
  next hAttribute => exact .attribute (mem_attributeCharacters_of_isAttribute hAttribute)
  next => exact .hex (hexDigit_mem (by omega)) (hexDigit_mem (by omega))

theorem percentDecode?_encodeByte (byte : UInt8) (rest : List Char) :
    percentDecode? (encodeByte byte ++ rest) = (percentDecode? rest).map (byte :: ·) := by
  have hByte := byte.toNat_lt
  rw [encodeByte]
  split
  next hAttribute =>
    have hMem := mem_attributeCharacters_of_isAttribute hAttribute
    have hPercent : Char.ofNat byte.toNat ≠ '%' := ne_of_mem_of_not_mem hMem (by decide)
    have hNat : (Char.ofNat byte.toNat).toNat = byte.toNat := Utf8.val_ofNat (by omega)
    rw [List.singleton_append, percentDecode?, if_pos hMem, hNat, UInt8.ofNat_toNat]
    exact fun _ _ _ hEq => absurd hEq hPercent
  next =>
    have hSelf : UInt8.ofNat (byte.toNat / 16 * 16 + byte.toNat % 16) = byte := by
      rw [Nat.div_add_mod', UInt8.ofNat_toNat]
    simp only [List.cons_append, List.nil_append, percentDecode?,
      idxOf?_hexDigit (show byte.toNat / 16 < 16 by omega),
      idxOf?_hexDigit (show byte.toNat % 16 < 16 by omega), Option.bind_eq_bind, Option.bind_some,
      hSelf]
    exact Option.map_eq_bind.symm

/-- Encoded bytes are decoded in order. -/
theorem percentDecode?_flatMap_encodeByte (bytes : List UInt8) :
    percentDecode? (bytes.flatMap encodeByte) = some bytes := by
  induction bytes with
  | nil => rfl
  | cons byte bytes ih =>
      rw [List.flatMap_cons, percentDecode?_encodeByte, ih, Option.map_some]

/-! The parameter. -/

theorem isQuotable_iff {c : Char} : isQuotable c ↔ isPlain c ∧ c ≠ '"' ∧ c ≠ '\\' := by
  simp [isQuotable, and_assoc]

/-- The plain form is for names without quotes and backslashes, the extended one for all others. -/
theorem parameter_cases (name : List Char) :
    (parameter name = "filename=\"".toList ++ name ++ ['"'] ∧ ∀ c ∈ name, isQuotable c) ∨
      parameter name = "filename*=utf-8''".toList ++ (Utf8.encode name).flatMap encodeByte := by
  rw [parameter]
  split
  next hName => exact .inl ⟨rfl, List.all_eq_true.mp hName⟩
  next => exact .inr rfl

/-- A parameter has one of the two forms, whatever the name. -/
theorem isQuoted_or_isExtended (name : List Char) :
    IsQuoted (parameter name) ∨ IsExtended (parameter name) := by
  rcases parameter_cases name with ⟨hText, hName⟩ | hText
  · exact .inl ⟨name, hText, fun c hc => (isQuotable_iff.mp (hName c hc)).2⟩
  · refine .inr ⟨(Utf8.encode name).map encodeByte, hText, ?_⟩
    rw [List.forall_mem_map]
    exact fun byte _ => isByteText_encodeByte byte

/-- The two forms differ in the character after the name of the parameter. -/
theorem not_isExtended_of_isQuoted {parameter : List Char} (h : IsQuoted parameter) :
    ¬IsExtended parameter := by
  obtain ⟨name, rfl, -⟩ := h
  rintro ⟨texts, hText, -⟩
  simp at hText

/-- The name is read back from the parameter, whatever it is. -/
theorem read?_parameter (name : List Char) : read? (parameter name) = some name := by
  rcases parameter_cases name with ⟨hText, -⟩ | hText
  · have hOpening : "filename=\"".toList.isPrefixOf? (parameter name) = some (name ++ ['"']) := by
      rw [List.isPrefixOf?_eq_some_iff_append_eq, hText, List.append_assoc]
    simp only [read?, hOpening]
    exact List.isSuffixOf?_eq_some_iff_append_eq.mpr rfl
  · have hPlain : "filename=\"".toList.isPrefixOf? (parameter name) = none := by
      rw [hText]
      rfl
    have hOpening : "filename*=utf-8''".toList.isPrefixOf? (parameter name) =
        some ((Utf8.encode name).flatMap encodeByte) :=
      List.isPrefixOf?_eq_some_iff_append_eq.mpr hText.symm
    simp only [read?, hPlain, hOpening, Option.bind_eq_bind, Option.bind_some,
      percentDecode?_flatMap_encodeByte, Utf8.decode?_encode]

/-- The parameter of any file name is one line of printable ASCII in exactly one of the two forms,
and the name is read back from it. So the parameters of different names differ. -/
theorem reads_back_parameter :
    (∀ name, (∀ c ∈ parameter name, isPlain c) ∧
      (IsQuoted (parameter name) ∧ ¬IsExtended (parameter name) ∨
        IsExtended (parameter name) ∧ ¬IsQuoted (parameter name)) ∧
      read? (parameter name) = some name) ∧
    Function.Injective parameter := by
  constructor
  · intro name
    refine ⟨fun c => isPlain_of_mem_parameter, ?_, read?_parameter name⟩
    rcases isQuoted_or_isExtended name with hQuoted | hExtended
    · exact .inl ⟨hQuoted, not_isExtended_of_isQuoted hQuoted⟩
    · exact .inr ⟨hExtended, fun hQuoted => not_isExtended_of_isQuoted hQuoted hExtended⟩
  · intro left right hEq
    have hRead := congrArg read? hEq
    rw [read?_parameter, read?_parameter] at hRead
    exact Option.some.inj hRead

end ExportKit.Mail.Filename
