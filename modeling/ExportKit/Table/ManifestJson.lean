import ExportKit.Table.Manifest

/-!
The documents of manifests and manifest lists.
-/
namespace ExportKit.Table

open Json.Reader

def countJson (n : UInt64) : Json := .int n.toNat

def nullableJson {α : Type} (toJson : α → Json) : Option α → Json
  | some value => toJson value
  | none => .null

/-- A map keyed by field ids in a document. -/
def fieldMapJson {α : Type} (toJson : α → Json) (map : SortedMap Int32 α) : Json :=
  .object (map.entries.map fun (id, value) =>
    (String.ofList (Digits.writeInt id.toInt), toJson value))

namespace ManifestDataFile

def toJson (file : ManifestDataFile) : Json :=
  .object
    [("content", .string "DATA"),
      ("file_path", .string file.filePath),
      ("file_format", .string "PARQUET"),
      ("partition", .object [("height_bucket", countJson file.heightBucket)]),
      ("record_count", countJson file.recordCount),
      ("file_size_in_bytes", countJson file.fileSize),
      ("column_sizes", nullableJson (fieldMapJson countJson) file.columnSizes),
      ("value_counts", nullableJson (fieldMapJson countJson) file.valueCounts),
      ("null_value_counts", nullableJson (fieldMapJson countJson) file.nullValueCounts),
      ("nan_value_counts", nullableJson (fieldMapJson countJson) file.nanValueCounts),
      ("lower_bounds", nullableJson (fieldMapJson .string) file.lowerBounds),
      ("upper_bounds", nullableJson (fieldMapJson .string) file.upperBounds),
      ("key_metadata", nullableJson .string file.keyMetadata),
      ("split_offsets",
        nullableJson (fun offsets => .array (offsets.map fun n => .int n.toInt))
          file.splitOffsets),
      ("equality_ids",
        nullableJson (fun ids => .array (ids.map fun n => .int n.toInt)) file.equalityIds),
      ("sort_order_id", .int file.sortOrderId.toInt)]

def partitionReader : Json.Reader UInt64 := fun depth source => do
  match ← record ["height_bucket"] depth source with
  | (depth, [heightBucket]) => required uint64 depth heightBucket
  | _ => none

def reader : Json.Reader ManifestDataFile := fun depth source => do
  let names :=
    ["content", "file_path", "file_format", "partition", "record_count", "file_size_in_bytes",
      "column_sizes", "value_counts", "null_value_counts", "nan_value_counts", "lower_bounds",
      "upper_bounds", "key_metadata", "split_offsets", "equality_ids", "sort_order_id"]
  match ← record names depth source with
  | (depth, [content, filePath, fileFormat, partition, recordCount, fileSize, columnSizes,
      valueCounts, nullValueCounts, nanValueCounts, lowerBounds, upperBounds, keyMetadata,
      splitOffsets, equalityIds, sortOrderId]) =>
    let () ← required (word [("DATA", ())]) depth content
    let () ← required (word [("PARQUET", ())]) depth fileFormat
    some
      { filePath := ← required string depth filePath
        heightBucket := ← required partitionReader depth partition
        recordCount := ← required uint64 depth recordCount
        fileSize := ← required uint64 depth fileSize
        columnSizes := ← optional (int32Map uint64) depth columnSizes
        valueCounts := ← optional (int32Map uint64) depth valueCounts
        nullValueCounts := ← optional (int32Map uint64) depth nullValueCounts
        nanValueCounts := ← optional (int32Map uint64) depth nanValueCounts
        lowerBounds := ← optional (int32Map string) depth lowerBounds
        upperBounds := ← optional (int32Map string) depth upperBounds
        keyMetadata := ← optional string depth keyMetadata
        splitOffsets := ← optional (list int64) depth splitOffsets
        equalityIds := ← optional (list int32) depth equalityIds
        sortOrderId := ← required int32 depth sortOrderId }
  | _ => none

end ManifestDataFile

namespace ManifestEntry

def toJson (entry : ManifestEntry) : Json :=
  .object
    [("status", .int entry.status.toNat),
      ("snapshot_id", nullableJson (fun n : Int64 => .int n.toInt) entry.snapshotId),
      ("sequence_number", nullableJson (fun n : Int64 => .int n.toInt) entry.sequenceNumber),
      ("data_file", entry.dataFile.toJson)]

def reader : Json.Reader ManifestEntry := fun depth source => do
  match ← record ["status", "snapshot_id", "sequence_number", "data_file"] depth source with
  | (depth, [status, snapshotId, sequenceNumber, dataFile]) =>
    some
      { status := ← required uint8 depth status
        snapshotId := ← optional int64 depth snapshotId
        sequenceNumber := ← optional int64 depth sequenceNumber
        dataFile := ← required ManifestDataFile.reader depth dataFile }
  | _ => none

end ManifestEntry

namespace Manifest

def toJson (manifest : Manifest) : Json :=
  .object [("entries", .array (manifest.entries.map ManifestEntry.toJson))]

def reader : Json.Reader Manifest := fun depth source => do
  match ← record ["entries"] depth source with
  | (depth, [entries]) =>
    some { entries := ← required (list ManifestEntry.reader) depth entries }
  | _ => none

end Manifest

namespace ManifestFile

def toJson (file : ManifestFile) : Json :=
  .object
    [("manifest_path", .string file.manifestPath),
      ("added_snapshot_id", .int file.addedSnapshotId.toInt),
      ("partition_spec_id", .int file.partitionSpecId.toInt),
      ("content", .string "data"),
      ("sequence_number", .int file.sequenceNumber.toInt),
      ("min_sequence_number", .int file.minSequenceNumber.toInt),
      ("added_files_count", countJson file.addedFilesCount),
      ("existing_files_count", countJson file.existingFilesCount),
      ("deleted_files_count", countJson file.deletedFilesCount),
      ("added_rows_count", countJson file.addedRowsCount),
      ("existing_rows_count", countJson file.existingRowsCount),
      ("deleted_rows_count", countJson file.deletedRowsCount)]

def reader : Json.Reader ManifestFile := fun depth source => do
  let names :=
    ["manifest_path", "added_snapshot_id", "partition_spec_id", "content", "sequence_number",
      "min_sequence_number", "added_files_count", "existing_files_count", "deleted_files_count",
      "added_rows_count", "existing_rows_count", "deleted_rows_count"]
  match ← record names depth source with
  | (depth, [manifestPath, addedSnapshotId, partitionSpecId, content, sequenceNumber,
      minSequenceNumber, addedFilesCount, existingFilesCount, deletedFilesCount, addedRowsCount,
      existingRowsCount, deletedRowsCount]) =>
    let () ← required (word [("data", ())]) depth content
    some
      { manifestPath := ← required string depth manifestPath
        addedSnapshotId := ← required int64 depth addedSnapshotId
        partitionSpecId := ← required int32 depth partitionSpecId
        sequenceNumber := ← required int64 depth sequenceNumber
        minSequenceNumber := ← required int64 depth minSequenceNumber
        addedFilesCount := ← required uint64 depth addedFilesCount
        existingFilesCount := ← required uint64 depth existingFilesCount
        deletedFilesCount := ← required uint64 depth deletedFilesCount
        addedRowsCount := ← required uint64 depth addedRowsCount
        existingRowsCount := ← required uint64 depth existingRowsCount
        deletedRowsCount := ← required uint64 depth deletedRowsCount }
  | _ => none

end ManifestFile

namespace ManifestList

def toJson (manifestList : ManifestList) : Json :=
  .object
    [("manifest-length", countJson manifestList.manifestLength),
      ("manifests", .array (manifestList.manifests.map ManifestFile.toJson))]

def reader : Json.Reader ManifestList := fun depth source => do
  match ← record ["manifest-length", "manifests"] depth source with
  | (depth, [manifestLength, manifests]) =>
    some
      { manifestLength := ← required uint64 depth manifestLength
        manifests := ← required (list ManifestFile.reader) depth manifests }
  | _ => none

end ManifestList

end ExportKit.Table
