import ExportKit.Mail.Address
import ExportKit.Mail.Filename
import ExportKit.Proofs.Mail.Reading
import ExportKit.Proofs.Text.Base64
import ExportKit.Proofs.Text.Utf8

/-!
Header values can be folded: each line feed in one is followed by a space, and all else is
printable ASCII. So whatever text a value is made from, its lines are one header line and lines
that continue it.
-/
namespace ExportKit.Mail

open Header (isPlain fold)
open Reading

/-- A text that may be the value of a header field. -/
inductive Folded : List Char → Prop
  | plain {text : List Char} (plain : ∀ c ∈ text, isPlain c) : Folded text
  | fold {text rest : List Char} (plain : ∀ c ∈ text, isPlain c) (folded : Folded rest) :
      Folded (text ++ fold ++ rest)

namespace Folded

/-- Printable ASCII can be added to the value of a header field. -/
theorem append_plain {value text : List Char} (h : Folded value) (hText : ∀ c ∈ text, isPlain c) :
    Folded (value ++ text) := by
  induction h with
  | plain hPlain =>
      apply Folded.plain
      intro c hc
      exact (List.mem_append.mp hc).elim (hPlain c) (hText c)
  | fold hPlain _ ih =>
      rw [List.append_assoc]
      exact .fold hPlain ih

/-- Pieces of printable ASCII on lines of their own. -/
theorem intercalate {pieces : List (List Char)} (h : ∀ piece ∈ pieces, ∀ c ∈ piece, isPlain c) :
    Folded (Header.fold.intercalate pieces) := by
  induction pieces with
  | nil => exact .plain (by simp)
  | cons piece pieces ih =>
      have hPiece := h piece List.mem_cons_self
      have hRest := ih fun other hOther => h other (List.mem_cons_of_mem _ hOther)
      cases pieces with
      | nil => simpa using Folded.plain hPiece
      | cons next pieces =>
          rw [List.intercalate_cons_cons]
          exact .fold hPiece hRest

end Folded

namespace Header

theorem isPlain_of_not_needsEncoding {text : List Char} (h : needsEncoding text = false) :
    ∀ c ∈ text, isPlain c := by
  intro c hc
  rw [needsEncoding, List.any_eq_false] at h
  simpa using h c hc

theorem isPlain_of_mem_base64 {bytes : List UInt8} {c : Char} (h : c ∈ Base64.encode bytes) :
    isPlain c := by
  have hAlphabet : ∀ c ∈ '=' :: Base64.alphabet, isPlain c :=
    List.all_eq_true.mp (by decide)
  exact hAlphabet c (Base64.mem_alphabet_of_mem_encode h)

theorem isPlain_of_mem_word {piece : List Char} {c : Char} (h : c ∈ word piece) : isPlain c := by
  have hOpening : ∀ c ∈ wordOpening, isPlain c := List.all_eq_true.mp (by decide)
  have hClosing : ∀ c ∈ wordClosing, isPlain c := List.all_eq_true.mp (by decide)
  rw [word, List.mem_append, List.mem_append] at h
  rcases h with (h | h) | h
  · exact hOpening c h
  · exact isPlain_of_mem_base64 h
  · exact hClosing c h

/-- Any text can stand in a header once it is encoded. -/
theorem folded_encode (text : List Char) : Folded (encode text) := by
  cases h : needsEncoding text with
  | false =>
      rw [encode, h]
      exact .plain (isPlain_of_not_needsEncoding h)
  | true =>
      rw [encode, h, if_pos rfl, encodeWords]
      apply Folded.intercalate
      intro line hLine c hc
      obtain ⟨piece, -, rfl⟩ := List.mem_map.mp hLine
      exact isPlain_of_mem_word hc

end Header

/-- Any address value can stand in a header once it is encoded. -/
theorem Address.folded_encode (value : List Char) : Folded (Address.encode value) := by
  cases hValue : Header.needsEncoding value with
  | false =>
      rw [Address.encode, hValue]
      exact .plain (Header.isPlain_of_not_needsEncoding hValue)
  | true =>
      rw [Address.encode, hValue, if_pos rfl]
      cases hSplit : split? value with
      | none => exact Header.folded_encode value
      | some parts =>
          obtain ⟨text, address⟩ := parts
          cases hAddress : Header.needsEncoding address with
          | true =>
              simp only [hAddress, if_true]
              exact Header.folded_encode value
          | false =>
              have hPlain := Header.isPlain_of_not_needsEncoding hAddress
              have hSpaced : ∀ c ∈ ' ' :: address, isPlain c :=
                List.forall_mem_cons.mpr ⟨by decide, hPlain⟩
              simp only [hAddress, Bool.false_eq_true, if_false]
              by_cases hName : displayName text = []
              · rw [if_pos hName]
                exact .plain hPlain
              · rw [if_neg hName]
                exact (Header.folded_encode _).append_plain hSpaced

namespace Filename

theorem isPlain_of_isAttribute {c : Char} (h : isAttribute c) : isPlain c := by
  rw [isAttribute, Bool.or_eq_true] at h
  rcases h with h | h
  · have hNat := Utf8.toNat_of_isAlphanum h
    simp only [isPlain, Bool.and_eq_true, decide_eq_true_eq]
    omega
  · have hOthers : ∀ c ∈ "!#$&+-.^_\x60|~".toList, isPlain c := List.all_eq_true.mp (by decide)
    exact hOthers c (by simpa using h)

theorem isPlain_hexDigit (n : Nat) : isPlain (hexDigit n) := by
  have hDigits : ∀ c ∈ "0123456789ABCDEF".toList, isPlain c := List.all_eq_true.mp (by decide)
  rw [hexDigit, List.getD_eq_getElem?_getD]
  cases h : "0123456789ABCDEF".toList[n]? with
  | none => decide
  | some c => exact hDigits c (List.mem_of_getElem? h)

theorem isPlain_of_mem_encodeByte {byte : UInt8} {c : Char} (h : c ∈ encodeByte byte) :
    isPlain c := by
  simp only [encodeByte] at h
  split at h
  · rename_i hAttribute
    rw [List.mem_singleton] at h
    exact h ▸ isPlain_of_isAttribute hAttribute
  · simp only [List.mem_cons, List.not_mem_nil, or_false] at h
    rcases h with rfl | rfl | rfl
    · decide
    · exact isPlain_hexDigit _
    · exact isPlain_hexDigit _

/-- The parameter of any file name is printable ASCII. -/
theorem isPlain_of_mem_parameter {name : List Char} {c : Char} (h : c ∈ parameter name) :
    isPlain c := by
  rw [parameter] at h
  split at h
  · rename_i hName
    have hOpening : ∀ c ∈ "filename=\"".toList, isPlain c := List.all_eq_true.mp (by decide)
    rw [List.mem_append, List.mem_append, List.mem_singleton] at h
    rcases h with (h | h) | rfl
    · exact hOpening c h
    · have hQuotable := List.all_eq_true.mp hName c h
      simp only [isQuotable, Bool.and_eq_true] at hQuotable
      exact hQuotable.1.1
    · decide
  · have hOpening : ∀ c ∈ "filename*=utf-8''".toList, isPlain c := List.all_eq_true.mp (by decide)
    rcases List.mem_append.mp h with h | h
    · exact hOpening c h
    · obtain ⟨byte, -, hc⟩ := List.mem_flatMap.mp h
      exact isPlain_of_mem_encodeByte hc

end Filename

end ExportKit.Mail
