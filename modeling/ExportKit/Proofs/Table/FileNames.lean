import ExportKit.Proofs.Path
import ExportKit.Proofs.Text.Uuid
import ExportKit.Table.Documents
import Mathlib.Data.List.Nodup

/-!
The names of the files of a table: each of them names an entry of a directory, no two files of one
table share their name, and other stamps give other names.
-/
namespace ExportKit

/-- A letter, a digit, a hyphen or a full stop. -/
def Name.isSimpleChar (c : Char) : Bool := c.isAlphanum || c = '-' || c = '.'

/-- A name that the system accepts in a path, no longer than a given number of bytes. -/
structure Name.Fits (name : Name) (n : Nat) : Prop where
  proper : name.IsProper
  length_le : name.length ≤ n
  not_mem_zero : 0 ∉ name

namespace Name

theorem Fits.mono {name : Name} {m n : Nat} (h : name.Fits m) (hLe : m ≤ n) : name.Fits n :=
  ⟨h.proper, Nat.le_trans h.length_le hLe, h.not_mem_zero⟩

theorem toNat_lt_of_isSimpleChar {c : Char} (h : isSimpleChar c) : c.toNat < 128 := by
  simp only [isSimpleChar, Bool.or_eq_true, decide_eq_true_eq] at h
  rcases h with (h | rfl) | rfl
  · have hNat := Utf8.toNat_of_isAlphanum h
    omega
  · decide
  · decide

/-- Simple characters take up one byte each. -/
theorem length_encode {text : List Char} (h : ∀ c ∈ text, isSimpleChar c) :
    (Utf8.encode text).length = text.length := by
  induction text with
  | nil => rfl
  | cons c text ih =>
      have hc := toNat_lt_of_isSimpleChar (h c List.mem_cons_self)
      have hSize : c.utf8Size = 1 := by
        rw [Char.utf8Size_eq_one_iff, UInt32.le_iff_toNat_le]
        exact Nat.le_of_lt_succ hc
      rw [Utf8.encode_cons, List.length_append, ih fun d hd => h d (List.mem_cons_of_mem c hd),
        String.length_utf8EncodeChar, hSize, List.length_cons, Nat.add_comm]

/-- A short text of such characters that begins with a letter fits. -/
theorem fits_ofString {text : String} {n : Nat} (hText : text.toList ≠ [] ∧
    text.toList.all isSimpleChar ∧ text.toList.head? ≠ some '.' ∧ text.toList.length ≤ n) :
    (ofString text).Fits n := by
  obtain ⟨hEmpty, hSimple, hDot, hLength⟩ := hText
  have h := List.all_eq_true.mp hSimple
  refine ⟨isProper_ofString hEmpty (fun hMem => ?_) hDot, ?_, fun hMem => ?_⟩
  · exact absurd (h _ hMem) (by decide)
  · rw [ofString, length_encode h]
    exact hLength
  · exact absurd (h (Char.ofNat 0) (Utf8.mem_of_mem_encode hMem (by decide))) (by decide)

end Name

namespace Table

open Documents (directoryName pointerFileName versionFileName versionHintFileName)

theorem fits_kind_name (kind : Kind) : (Name.ofString kind.name).Fits 12 := by
  cases kind <;> exact Name.fits_ofString (by decide)

theorem fits_directoryName : (Name.ofString directoryName).Fits 8 :=
  Name.fits_ofString (by decide)

theorem fits_versionFileName : (Name.ofString versionFileName).Fits 16 :=
  Name.fits_ofString (by decide)

theorem fits_pointerFileName : (Name.ofString pointerFileName).Fits 13 :=
  Name.fits_ofString (by decide)

theorem fits_versionHintFileName : (Name.ofString versionHintFileName).Fits 17 :=
  Name.fits_ofString (by decide)

/-- The pointer does not stand in the place of the metadata. -/
theorem versionFileName_ne_pointerFileName :
    Name.ofString versionFileName ≠ Name.ofString pointerFileName :=
  fun hEq => absurd (Name.ofString_injective hEq) (by decide)

theorem isSimpleChar_digitChar (digit : Fin 16) : Name.isSimpleChar (Uuid.digitChar digit) := by
  have hAll : ∀ digit, Name.isSimpleChar (Uuid.digitChar digit) := by decide
  exact hAll digit

theorem isSimpleChar_of_mem_uuid {uuid : Uuid} {c : Char} (h : c ∈ uuid.chars) :
    Name.isSimpleChar c := by
  have hDigits : ∀ d ∈ uuid.digits.toList.map Uuid.digitChar, Name.isSimpleChar d := by
    rw [List.forall_mem_map]
    exact fun digit _ => isSimpleChar_digitChar digit
  simp only [Uuid.chars, List.mem_append, List.mem_cons] at h
  rcases h with h | rfl | h | rfl | h | rfl | h | rfl | h
  · exact hDigits c (List.mem_of_mem_take h)
  · decide
  · exact hDigits c (List.mem_of_mem_drop (List.mem_of_mem_take h))
  · decide
  · exact hDigits c (List.mem_of_mem_drop (List.mem_of_mem_take h))
  · decide
  · exact hDigits c (List.mem_of_mem_drop (List.mem_of_mem_take h))
  · decide
  · exact hDigits c (List.mem_of_mem_drop h)

theorem isSimpleChar_of_mem_writeInt {n : Int} {c : Char} (h : c ∈ Digits.writeInt n) :
    Name.isSimpleChar c := by
  have hDigits : ∀ d ∈ Digits.write n.natAbs, Name.isSimpleChar d := by
    intro d hd
    have hDigit := List.all_eq_true.mp (Digits.all_isDigit_write n.natAbs) d hd
    simp [Name.isSimpleChar, Char.isAlphanum, hDigit]
  rw [Digits.writeInt] at h
  split at h
  · rcases List.mem_cons.mp h with rfl | h
    · decide
    · exact hDigits c h
  · exact hDigits c h

/-- A 64-bit integer takes at most 19 digits and a sign. -/
theorem length_writeInt_le (n : Int64) : (Digits.writeInt n.toInt).length ≤ 20 := by
  have hLow := n.le_toInt
  have hHigh := n.toInt_lt
  have hDigits : (Digits.write n.toInt.natAbs).length ≤ 19 := by
    rw [Digits.write, Nat.length_toDigits_le_iff (by decide) (by decide)]
    omega
  rw [Digits.writeInt]
  split <;> simp <;> omega

theorem toList_manifestFileName (stamp : Stamp) : stamp.manifestFileName.toList =
    "manifest-".toList ++ stamp.manifestUuid.chars ++ ".json".toList := by
  simp [Stamp.manifestFileName, Uuid.text]

theorem toList_manifestListFileName (stamp : Stamp) : stamp.manifestListFileName.toList =
    "snap-".toList ++ Digits.writeInt stamp.snapshotId.toInt ++
      "-1-manifest-list.json".toList := by
  simp [Stamp.manifestListFileName]

/-- Names of manifests fit into 50 bytes. -/
theorem fits_manifestFileName (stamp : Stamp) : (Name.ofString stamp.manifestFileName).Fits 50 := by
  have hChars := toList_manifestFileName stamp
  apply Name.fits_ofString
  refine ⟨?_, ?_, ?_, ?_⟩
  · simp [hChars]
  · rw [hChars, List.all_append, List.all_append, Bool.and_eq_true, Bool.and_eq_true]
    refine ⟨⟨by decide, List.all_eq_true.mpr ?_⟩, by decide⟩
    exact fun c => isSimpleChar_of_mem_uuid
  · simp [hChars]
  · simp [hChars, Uuid.chars]

/-- Names of manifest lists fit into 50 bytes, whatever the time is. -/
theorem fits_manifestListFileName (stamp : Stamp) :
    (Name.ofString stamp.manifestListFileName).Fits 50 := by
  have hChars := toList_manifestListFileName stamp
  have hLength := length_writeInt_le stamp.snapshotId
  apply Name.fits_ofString
  refine ⟨?_, ?_, ?_, ?_⟩
  · simp [hChars]
  · rw [hChars, List.all_append, List.all_append, Bool.and_eq_true, Bool.and_eq_true]
    refine ⟨⟨by decide, List.all_eq_true.mpr ?_⟩, by decide⟩
    exact fun c => isSimpleChar_of_mem_writeInt
  · simp [hChars]
  · simp [hChars]
    omega

/-! Different stamps. -/

theorem write_injective {m n : Nat} (h : Digits.write m = Digits.write n) : m = n := by
  rw [← Option.some_inj, ← Digits.read?_write m, h, Digits.read?_write]

/-- The sign and the digits of an integer determine it. -/
theorem writeInt_injective {m n : Int} (h : Digits.writeInt m = Digits.writeInt n) : m = n := by
  have hSign (k : Nat) (text : List Char) : Digits.write k ≠ '-' :: text := by
    intro hEq
    have hDigits := Digits.all_isDigit_write k
    rw [hEq, List.all_cons] at hDigits
    cases hDigits
  simp only [Digits.writeInt] at h
  split at h <;> split at h
  · have hAbs := write_injective (List.cons.inj h).2
    omega
  · exact absurd h.symm (hSign _ _)
  · exact absurd h (hSign _ _)
  · have hAbs := write_injective h
    omega

namespace Stamp

variable {stamp earlier : Stamp}

/-- The name of a manifest gives away its identifier. -/
theorem manifestUuid_of_manifestFileName (h : earlier.manifestFileName = stamp.manifestFileName) :
    earlier.manifestUuid = stamp.manifestUuid := by
  have hChars := congrArg String.toList h
  rw [toList_manifestFileName, toList_manifestFileName] at hChars
  exact Uuid.chars_injective (List.append_cancel_left (List.append_cancel_right hChars))

/-- The name of a manifest list gives away its time. -/
theorem timestampMs_of_manifestListFileName
    (h : earlier.manifestListFileName = stamp.manifestListFileName) :
    earlier.timestampMs = stamp.timestampMs := by
  have hChars := congrArg String.toList h
  rw [toList_manifestListFileName, toList_manifestListFileName] at hChars
  exact Int64.toInt_inj.mp
    (writeInt_injective (List.append_cancel_left (List.append_cancel_right hChars)))

/-- The names in the directory of the documents of a table, in the order in which they are made. -/
def fileNames (stamp : Stamp) : List Name :=
  [versionFileName, pointerFileName, versionHintFileName, stamp.manifestFileName,
    stamp.manifestListFileName].map Name.ofString

/-- The files of a table have different names, whatever the stamp is. -/
theorem nodup_fileNames (stamp : Stamp) : stamp.fileNames.Nodup := by
  have hStart : [versionFileName, pointerFileName, versionHintFileName, stamp.manifestFileName,
      stamp.manifestListFileName].map (fun text => text.toList.take 3) =
        [['v', '1', '.'], ['m', 'e', 't'], ['v', 'e', 'r'], ['m', 'a', 'n'], ['s', 'n', 'a']] := by
    simp [versionFileName, pointerFileName, versionHintFileName, manifestFileName,
      manifestListFileName]
  apply List.Nodup.map fun _ _ => Name.ofString_injective
  apply List.Nodup.of_map fun text => text.toList.take 3
  rw [hStart]
  decide

/-- A manifest with another identifier has another name than all files of the table. -/
theorem manifestFileName_notMem (h : earlier.manifestUuid ≠ stamp.manifestUuid) :
    Name.ofString earlier.manifestFileName ∉ stamp.fileNames := by
  have hNodup := nodup_fileNames { stamp with manifestUuid := earlier.manifestUuid }
  have hOther : Name.ofString earlier.manifestFileName ≠ Name.ofString stamp.manifestFileName :=
    fun hEq => h (manifestUuid_of_manifestFileName (Name.ofString_injective hEq))
  simp only [fileNames, List.map_cons, List.map_nil, List.nodup_cons, List.mem_cons,
    List.not_mem_nil, or_false, not_or] at hNodup ⊢
  obtain ⟨⟨-, -, hVersion, -⟩, ⟨-, hPointer, -⟩, ⟨hHint, -⟩, hList, -⟩ := hNodup
  exact ⟨Ne.symm hVersion, Ne.symm hPointer, Ne.symm hHint, hOther, hList⟩

/-- A manifest list of another time has another name than all files of the table. -/
theorem manifestListFileName_notMem (h : earlier.timestampMs ≠ stamp.timestampMs) :
    Name.ofString earlier.manifestListFileName ∉ stamp.fileNames := by
  have hNodup := nodup_fileNames { stamp with timestampMs := earlier.timestampMs }
  have hOther :
      Name.ofString earlier.manifestListFileName ≠ Name.ofString stamp.manifestListFileName :=
    fun hEq => h (timestampMs_of_manifestListFileName (Name.ofString_injective hEq))
  simp only [fileNames, List.map_cons, List.map_nil, List.nodup_cons, List.mem_cons,
    List.not_mem_nil, or_false, not_or] at hNodup ⊢
  obtain ⟨⟨-, -, -, hVersion⟩, ⟨-, -, hPointer⟩, ⟨-, hHint⟩, hManifest, -⟩ := hNodup
  exact ⟨Ne.symm hVersion, Ne.symm hPointer, Ne.symm hHint, Ne.symm hManifest, hOther⟩

end Stamp

end Table

end ExportKit
