import ExportKit.Proofs.FileSystem.Listing
import ExportKit.Proofs.Table.Partition
import ExportKit.Table.Documents
import Mathlib.Algebra.GroupWithZero.Nat
import Mathlib.Algebra.Order.BigOperators.Group.List
import Mathlib.Algebra.Order.Group.Nat
import Mathlib.Data.Finset.Card
import Mathlib.Data.List.Dedup

/-!
The totals of a list of data files: of the whole list, as the metadata and the manifest list state
them, and of the part of it that a manifest records.
-/
namespace ExportKit.Table

namespace DataFile

/-- The rows that the statistics of a file state, if it has any. -/
def statedRows (file : DataFile) : Nat :=
  match file.stats with
  | some stats => stats.recordCount.toNat
  | none => 0

/-- The rows of some files, without a bound on their number. -/
def rows (files : List DataFile) : Nat := (files.map statedRows).sum

/-- The bytes of some files, without a bound on their number. -/
def bytes (files : List DataFile) : Nat := (files.map (·.size.toNat)).sum

/-- The number of files, that of their rows and that of their bytes are below 2 ^ 64. -/
structure FitsCounters (files : List DataFile) : Prop where
  length : files.length < UInt64.size
  rows : rows files < UInt64.size
  bytes : bytes files < UInt64.size

/-- A sum that stays below 2 ^ 64 is not wrapped around anywhere on the way. -/
theorem toNat_foldl_add (count : DataFile → UInt64) (files : List DataFile) {start : UInt64}
    (h : start.toNat + (files.map fun file => (count file).toNat).sum < UInt64.size) :
    (files.foldl (fun total file => total + count file) start).toNat =
      start.toNat + (files.map fun file => (count file).toNat).sum := by
  induction files generalizing start with
  | nil => simp
  | cons file rest ih =>
      rw [List.map_cons, List.sum_cons] at h ⊢
      have hFirst : (start + count file).toNat = start.toNat + (count file).toNat := by
        rw [UInt64.toNat_add]
        apply Nat.mod_eq_of_lt
        have hSize : UInt64.size = 2 ^ 64 := rfl
        omega
      rw [List.foldl_cons, ih (by omega), hFirst, Nat.add_assoc]

/-- A file counts with the rows that its statistics state. -/
theorem toNat_recordCount (file : DataFile) : file.recordCount.toNat = file.statedRows := by
  rw [recordCount, statedRows]
  cases file.stats <;> rfl

/-- The rows of some files are the sum of their record counts. -/
theorem rows_eq_sum (files : List DataFile) : rows files = (files.map (·.recordCount.toNat)).sum :=
  congrArg List.sum (List.map_congr_left fun file _ => (toNat_recordCount file).symm)

/-- Where the counters do not overflow, the number of rows is exact. -/
theorem FitsCounters.toNat_totalRecords {files : List DataFile} (h : FitsCounters files) :
    (totalRecords files).toNat = DataFile.rows files := by
  have hRows := h.rows
  rw [rows_eq_sum] at hRows ⊢
  rw [totalRecords, toNat_foldl_add recordCount files (by simpa using hRows)]
  simp

theorem FitsCounters.toNat_totalSize {files : List DataFile} (h : FitsCounters files) :
    (totalSize files).toNat = DataFile.bytes files := by
  have hBytes := h.bytes
  rw [totalSize, toNat_foldl_add size files (by simpa [DataFile.bytes] using hBytes)]
  simp [DataFile.bytes]

/-- Each directory with files counts as one partition. -/
theorem partitionCount_eq_card (files : List DataFile) :
    partitionCount files = (files.map (·.partitionDir)).toFinset.card := by
  rw [partitionCount, ← List.toFinset_card_of_nodup (nodup_eraseDups _)]
  congr 1
  ext dirName
  simp only [List.mem_toFinset, List.mem_eraseDups]

theorem one_le_partitionCount {files : List DataFile} (h : files ≠ []) :
    1 ≤ partitionCount files := by
  rw [partitionCount_eq_card, Nat.one_le_iff_ne_zero, ne_eq, Finset.card_eq_zero,
    List.toFinset_eq_empty_iff, List.map_eq_nil_iff]
  exact h

theorem partitionCount_le_length (files : List DataFile) :
    partitionCount files ≤ files.length := by
  rw [partitionCount_eq_card]
  exact (List.toFinset_card_le _).trans_eq (List.length_map _)

/-- The directory of a file is named for a range of heights. -/
def HasRange (file : DataFile) : Prop := ∃ range, HeightRange.Spells file.partitionDir.toList range

theorem hasRange_iff {file : DataFile} :
    HasRange file ↔ (HeightRange.ofDirName? file.partitionDir.toList).isSome := by
  rw [Option.isSome_iff_exists, HasRange]
  exact exists_congr fun range => HeightRange.ofDirName?_eq_some_iff.symm

instance : DecidablePred HasRange := fun _ => decidable_of_iff _ hasRange_iff.symm

end DataFile

namespace Manifest

open DataFile (HasRange)

def rows (manifest : Manifest) : Nat :=
  (manifest.entries.map (·.dataFile.recordCount.toNat)).sum

def bytes (manifest : Manifest) : Nat := (manifest.entries.map (·.dataFile.fileSize.toNat)).sum

/-- What a manifest says about its files, as long as it is copied from them, is what the files of
directories with a range have. -/
theorem map_entries_ofFiles {α : Type} (get : ManifestEntry → α) (getFile : DataFile → α)
    (files : List DataFile) (warehouse : Path) (width : BucketWidth)
    (h : ∀ file entry, entryOf? warehouse width file = some entry → get entry = getFile file) :
    (ofFiles files warehouse width).entries.map get = (files.filter HasRange).map getFile := by
  induction files with
  | nil => rfl
  | cons file rest ih =>
      simp only [ofFiles] at ih ⊢
      cases hEntry : entryOf? warehouse width file with
      | none =>
          have hNot : ¬HasRange file := by
            rw [entryOf?, Option.map_eq_none_iff] at hEntry
            rw [DataFile.hasRange_iff, hEntry]
            simp
          rw [List.filterMap_cons_none hEntry, List.filter_cons_of_neg (by simpa using hNot), ih]
      | some entry =>
          have hRange : HasRange file := by
            rw [entryOf?, Option.map_eq_some_iff] at hEntry
            obtain ⟨range, hRange, -⟩ := hEntry
            exact ⟨range, HeightRange.ofDirName?_eq_some_iff.mp hRange⟩
          rw [List.filterMap_cons_some hEntry, List.filter_cons_of_pos (by simpa using hRange),
            List.map_cons, List.map_cons, ih, h file entry hEntry]

variable (files : List DataFile) (warehouse : Path) (width : BucketWidth)

/-- The manifest has an entry for each file in a directory that is named for a range. -/
theorem length_entries_ofFiles :
    (ofFiles files warehouse width).entries.length = (files.filter HasRange).length := by
  have hMap :=
    map_entries_ofFiles (fun _ => ()) (fun _ => ()) files warehouse width fun _ _ _ => rfl
  simpa using congrArg List.length hMap

/-- The manifest records the rows of those files. -/
theorem rows_ofFiles :
    (ofFiles files warehouse width).rows = DataFile.rows (files.filter HasRange) := by
  rw [rows, map_entries_ofFiles _ (·.statedRows), DataFile.rows]
  intro file entry hEntry
  obtain ⟨range, -, rfl⟩ := Option.map_eq_some_iff.mp hEntry
  exact DataFile.toNat_recordCount file

/-- The manifest records the bytes of those files. -/
theorem bytes_ofFiles :
    (ofFiles files warehouse width).bytes = DataFile.bytes (files.filter HasRange) := by
  rw [bytes, map_entries_ofFiles _ (·.size.toNat), DataFile.bytes]
  intro file entry hEntry
  obtain ⟨range, -, rfl⟩ := Option.map_eq_some_iff.mp hEntry
  rfl

/-- A manifest records no more files, rows and bytes than there are. -/
theorem ofFiles_le :
    (ofFiles files warehouse width).entries.length ≤ files.length ∧
      (ofFiles files warehouse width).rows ≤ DataFile.rows files ∧
        (ofFiles files warehouse width).bytes ≤ DataFile.bytes files := by
  have hSublist : (files.filter HasRange).Sublist files := List.filter_sublist
  rw [length_entries_ofFiles, rows_ofFiles, bytes_ofFiles]
  refine ⟨hSublist.length_le, ?_, ?_⟩
  · exact (hSublist.map _).sum_le_sum fun _ _ => Nat.zero_le _
  · exact (hSublist.map _).sum_le_sum fun _ _ => Nat.zero_le _

/-- A manifest records all files, rows and bytes exactly if each file is in a directory with a
range. -/
theorem ofFiles_eq_iff :
    ((ofFiles files warehouse width).entries.length = files.length ∧
      (ofFiles files warehouse width).rows = DataFile.rows files ∧
        (ofFiles files warehouse width).bytes = DataFile.bytes files) ↔
      ∀ file ∈ files, HasRange file := by
  rw [length_entries_ofFiles, rows_ofFiles, bytes_ofFiles]
  constructor
  · rintro ⟨hLength, -, -⟩ file hFile
    exact of_decide_eq_true (List.length_filter_eq_length_iff.mp hLength file hFile)
  · intro hAll
    have hFilter : files.filter HasRange = files :=
      List.filter_eq_self.mpr fun file hFile => decide_eq_true (hAll file hFile)
    rw [hFilter]
    exact ⟨rfl, rfl, rfl⟩

end Manifest

end ExportKit.Table
