import ExportKit.Table.Metadata

/-!
The documents of table metadata. The counts of a snapshot summary are written as strings.
-/
namespace ExportKit.Table

open Json.Reader

namespace SnapshotSummary

/-- A count as it stands in a summary. -/
def countJsonText (n : UInt64) : Json := .string (String.ofList (Digits.write n.toNat))

def toJson (summary : SnapshotSummary) : Json :=
  .object
    [("operation", .string "append"),
      ("added-data-files", countJsonText summary.addedDataFiles),
      ("added-records", countJsonText summary.addedRecords),
      ("added-files-size", countJsonText summary.addedFilesSize),
      ("changed-partition-count", countJsonText summary.changedPartitionCount)]

def reader : Json.Reader SnapshotSummary := fun depth source => do
  let names :=
    ["operation", "added-data-files", "added-records", "added-files-size",
      "changed-partition-count"]
  match ← record names depth source with
  | (depth, [operation, addedDataFiles, addedRecords, addedFilesSize, changedPartitionCount]) =>
    let () ← required (word [("append", ())]) depth operation
    some
      { addedDataFiles := ← required countText depth addedDataFiles
        addedRecords := ← required countText depth addedRecords
        addedFilesSize := ← required countText depth addedFilesSize
        changedPartitionCount := ← required countText depth changedPartitionCount }
  | _ => none

end SnapshotSummary

namespace Snapshot

def toJson (snapshot : Snapshot) : Json :=
  .object
    [("sequence-number", .int snapshot.sequenceNumber.toInt),
      ("snapshot-id", .int snapshot.snapshotId.toInt),
      ("timestamp-ms", .int snapshot.timestampMs.toInt),
      ("summary", snapshot.summary.toJson),
      ("manifest-list", .string snapshot.manifestList)]

def reader : Json.Reader Snapshot := fun depth source => do
  let names := ["sequence-number", "snapshot-id", "timestamp-ms", "summary", "manifest-list"]
  match ← record names depth source with
  | (depth, [sequenceNumber, snapshotId, timestampMs, summary, manifestList]) =>
    some
      { sequenceNumber := ← required int64 depth sequenceNumber
        snapshotId := ← required int64 depth snapshotId
        timestampMs := ← required int64 depth timestampMs
        summary := ← required SnapshotSummary.reader depth summary
        manifestList := ← required string depth manifestList }
  | _ => none

end Snapshot

namespace SnapshotRef

def toJson (ref : SnapshotRef) : Json :=
  .object [("snapshot-id", .int ref.snapshotId.toInt), ("type", .string "branch")]

def reader : Json.Reader SnapshotRef := fun depth source => do
  match ← record ["snapshot-id", "type"] depth source with
  | (depth, [snapshotId, type]) =>
    let () ← required (word [("branch", ())]) depth type
    some { snapshotId := ← required int64 depth snapshotId }
  | _ => none

end SnapshotRef

namespace SortOrder

def toJson (order : SortOrder) : Json :=
  .object
    [("order-id", .int order.orderId.toInt),
      ("fields", .array (order.fields.map (·.json)))]

def reader : Json.Reader SortOrder := fun depth source => do
  match ← record ["order-id", "fields"] depth source with
  | (depth, [orderId, fields]) =>
    some
      { orderId := ← required int32 depth orderId
        fields := ← required (list free) depth fields }
  | _ => none

end SortOrder

namespace Metadata

def textMapJson {α : Type} (toJson : α → Json) (map : SortedMap String α) : Json :=
  .object (map.entries.map fun (key, value) => (key, toJson value))

def toJson (metadata : Metadata) : Json :=
  .object
    [("format-version", .int metadata.formatVersion.toNat),
      ("table-uuid", .string metadata.tableUuid.text),
      ("location", .string metadata.location),
      ("last-sequence-number", .int metadata.lastSequenceNumber.toInt),
      ("last-updated-ms", .int metadata.lastUpdatedMs.toInt),
      ("last-column-id", .int metadata.lastColumnId.toInt),
      ("current-schema-id", .int metadata.currentSchemaId.toInt),
      ("schemas", .array (metadata.schemas.map Schema.toJson)),
      ("default-spec-id", .int metadata.defaultSpecId.toInt),
      ("partition-specs", .array (metadata.partitionSpecs.map PartitionSpec.toJson)),
      ("last-partition-id", .int metadata.lastPartitionId.toInt),
      ("default-sort-order-id", .int metadata.defaultSortOrderId.toInt),
      ("sort-orders", .array (metadata.sortOrders.map SortOrder.toJson)),
      ("properties", textMapJson .string metadata.properties),
      ("current-snapshot-id", .int metadata.currentSnapshotId.toInt),
      ("refs", textMapJson SnapshotRef.toJson metadata.refs),
      ("snapshots", .array (metadata.snapshots.map Snapshot.toJson)),
      ("statistics", .array (metadata.statistics.map (·.json))),
      ("partition-statistics", .array (metadata.partitionStatistics.map (·.json)))]

def uuidReader : Json.Reader Uuid := fun depth source => do
  Uuid.ofChars? (← string depth source).toList

def reader : Json.Reader Metadata := fun depth source => do
  let names :=
    ["format-version", "table-uuid", "location", "last-sequence-number", "last-updated-ms",
      "last-column-id", "current-schema-id", "schemas", "default-spec-id", "partition-specs",
      "last-partition-id", "default-sort-order-id", "sort-orders", "properties",
      "current-snapshot-id", "refs", "snapshots", "statistics", "partition-statistics"]
  match ← record names depth source with
  | (depth, [formatVersion, tableUuid, location, lastSequenceNumber, lastUpdatedMs, lastColumnId,
      currentSchemaId, schemas, defaultSpecId, partitionSpecs, lastPartitionId,
      defaultSortOrderId, sortOrders, properties, currentSnapshotId, refs, snapshots, statistics,
      partitionStatistics]) =>
    some
      { formatVersion := ← required uint8 depth formatVersion
        tableUuid := ← required uuidReader depth tableUuid
        location := ← required string depth location
        lastSequenceNumber := ← required int64 depth lastSequenceNumber
        lastUpdatedMs := ← required int64 depth lastUpdatedMs
        lastColumnId := ← required int32 depth lastColumnId
        currentSchemaId := ← required int32 depth currentSchemaId
        schemas := ← required (list Schema.reader) depth schemas
        defaultSpecId := ← required int32 depth defaultSpecId
        partitionSpecs := ← required (list PartitionSpec.reader) depth partitionSpecs
        lastPartitionId := ← required int32 depth lastPartitionId
        defaultSortOrderId := ← required int32 depth defaultSortOrderId
        sortOrders := ← required (list SortOrder.reader) depth sortOrders
        properties := ← required (textMap string) depth properties
        currentSnapshotId := ← required int64 depth currentSnapshotId
        refs := ← required (textMap SnapshotRef.reader) depth refs
        snapshots := ← required (list Snapshot.reader) depth snapshots
        statistics := ← required (list free) depth statistics
        partitionStatistics := ← required (list free) depth partitionStatistics }
  | _ => none

end Metadata

end ExportKit.Table
