import ExportKit.Json.Basic
import ExportKit.Table.DataFile
import ExportKit.Table.Partition
import ExportKit.Table.Schema
import ExportKit.Table.Stamp

/-!
Table metadata: schemas, partition specs and snapshots of a table, and which of each is current.
-/
namespace ExportKit.Table

/-- What a snapshot adds to its table. -/
structure SnapshotSummary where
  addedDataFiles : UInt64
  addedRecords : UInt64
  addedFilesSize : UInt64
  changedPartitionCount : UInt64
  deriving DecidableEq

/-- A state of a table. -/
structure Snapshot where
  sequenceNumber : Int64
  snapshotId : Int64
  timestampMs : Int64
  summary : SnapshotSummary
  manifestList : String
  deriving DecidableEq

/-- A branch, which names a snapshot. -/
structure SnapshotRef where
  snapshotId : Int64
  deriving DecidableEq

/-- An order of rows within data files. -/
structure SortOrder where
  orderId : Int32
  fields : List FreeJson

/-- The metadata of a table. -/
structure Metadata where
  formatVersion : UInt8
  tableUuid : Uuid
  location : String
  lastSequenceNumber : Int64
  lastUpdatedMs : Int64
  lastColumnId : Int32
  currentSchemaId : Int32
  schemas : List Schema
  defaultSpecId : Int32
  partitionSpecs : List PartitionSpec
  lastPartitionId : Int32
  defaultSortOrderId : Int32
  sortOrders : List SortOrder
  properties : SortedMap String String
  currentSnapshotId : Int64
  refs : SortedMap String SnapshotRef
  snapshots : List Snapshot
  statistics : List FreeJson
  partitionStatistics : List FreeJson

namespace SnapshotSummary

/-- The summary of a snapshot that adds some files. -/
def ofFiles (files : List DataFile) : SnapshotSummary where
  addedDataFiles := UInt64.ofNat files.length
  addedRecords := DataFile.totalRecords files
  addedFilesSize := DataFile.totalSize files
  changedPartitionCount := UInt64.ofNat (DataFile.partitionCount files)

end SnapshotSummary

namespace Metadata

def currentSnapshot? (metadata : Metadata) : Option Snapshot :=
  metadata.snapshots.find? fun snapshot => snapshot.snapshotId = metadata.currentSnapshotId

/-- The branch that every snapshot is committed to. -/
def mainBranch : String := "main"

/-- The properties of an exported table. -/
def exportProperties : SortedMap String String :=
  .ofList
    [("created-by", "ar-io-node-parquet-export"),
      ("engine.hive.enabled", "true"),
      ("write.format.default", "parquet"),
      ("write.parquet.compression-codec", "zstd")]

/-- The location of a table within a warehouse, given by its absolute path. -/
def tableLocation (warehouse : Path) (kind : Kind) : String :=
  "file://" ++ warehouse.display ++ "/" ++ kind.name

/-- The metadata of a table whose only snapshot adds some files. -/
def ofFiles (kind : Kind) (location : String) (spec : PartitionSpec) (files : List DataFile)
    (stamp : Stamp) : Metadata where
  formatVersion := 2
  tableUuid := stamp.tableUuid
  location
  lastSequenceNumber := 1
  lastUpdatedMs := stamp.timestampMs
  lastColumnId := kind.schema.lastColumnId
  currentSchemaId := kind.schema.schemaId
  schemas := [kind.schema]
  defaultSpecId := spec.specId
  partitionSpecs := [spec]
  lastPartitionId := spec.lastPartitionId
  defaultSortOrderId := 0
  sortOrders := [{ orderId := 0, fields := [] }]
  properties := exportProperties
  currentSnapshotId := stamp.snapshotId
  refs := .ofList [(mainBranch, { snapshotId := stamp.snapshotId })]
  snapshots :=
    [{ sequenceNumber := 1
       snapshotId := stamp.snapshotId
       timestampMs := stamp.timestampMs
       summary := .ofFiles files
       manifestList := stamp.manifestListFileName }]
  statistics := []
  partitionStatistics := []

end Metadata

end ExportKit.Table
