import ExportKit.Table.DataFile
import ExportKit.Table.Partition
import ExportKit.Table.Stamp

/-!
Manifests, which list the data files of a snapshot, and manifest lists, which list its manifests.
-/
namespace ExportKit.Table

/-- A data file as a manifest records it. What is not known is absent. -/
structure ManifestDataFile where
  filePath : String
  heightBucket : UInt64
  recordCount : UInt64
  fileSize : UInt64
  columnSizes : Option (SortedMap Int32 UInt64)
  valueCounts : Option (SortedMap Int32 UInt64)
  nullValueCounts : Option (SortedMap Int32 UInt64)
  nanValueCounts : Option (SortedMap Int32 UInt64)
  lowerBounds : Option (SortedMap Int32 String)
  upperBounds : Option (SortedMap Int32 String)
  keyMetadata : Option String
  splitOffsets : Option (List Int64)
  equalityIds : Option (List Int32)
  sortOrderId : Int32
  deriving DecidableEq

/-- A data file with what happened to it. Snapshot and sequence number are inherited from the
manifest list when they are absent. -/
structure ManifestEntry where
  status : UInt8
  snapshotId : Option Int64
  sequenceNumber : Option Int64
  dataFile : ManifestDataFile
  deriving DecidableEq

/-- The data files of a snapshot. -/
structure Manifest where
  entries : List ManifestEntry
  deriving DecidableEq

/-- A manifest as a manifest list records it. -/
structure ManifestFile where
  /-- Relative to the directory of the list. -/
  manifestPath : String
  addedSnapshotId : Int64
  partitionSpecId : Int32
  sequenceNumber : Int64
  minSequenceNumber : Int64
  addedFilesCount : UInt64
  existingFilesCount : UInt64
  deletedFilesCount : UInt64
  addedRowsCount : UInt64
  existingRowsCount : UInt64
  deletedRowsCount : UInt64
  deriving DecidableEq

/-- The manifests of a snapshot. -/
structure ManifestList where
  manifestLength : UInt64
  manifests : List ManifestFile
  deriving DecidableEq

namespace ManifestEntry

/-- The status of a file that the snapshot adds. -/
def added : UInt8 := 1

end ManifestEntry

/-- The path of a file below the warehouse, or its whole path if it lies elsewhere, with slashes
between the components. -/
def warehouseRelative (path warehouse : Path) : String :=
  let components := (path.below? warehouse).getD path.components
  String.ofList (['/'].intercalate
    (components.map fun component => Utf8.decodeLossy (Path.componentBytes component)))

/-- A map, unless it is empty. -/
def knownMap {ν : Type} (map : SortedMap Int32 ν) : Option (SortedMap Int32 ν) :=
  if map.isEmpty then none else some map

namespace ManifestDataFile

/-- The record of a data file that belongs to a given bucket. -/
def ofDataFile (file : DataFile) (bucket : UInt64) (warehouse : Path) : ManifestDataFile where
  filePath := warehouseRelative file.path warehouse
  heightBucket := bucket
  recordCount := file.recordCount
  fileSize := file.size
  columnSizes := file.stats.bind fun stats => knownMap stats.columnSizes
  valueCounts := file.stats.bind fun stats => knownMap stats.valueCounts
  nullValueCounts := file.stats.bind fun stats => knownMap stats.nullValueCounts
  nanValueCounts := none
  lowerBounds := none
  upperBounds := none
  keyMetadata := none
  splitOffsets := none
  equalityIds := none
  sortOrderId := 0

end ManifestDataFile

namespace Manifest

/-- The entry of a data file, if its directory is named for a range of heights. -/
def entryOf? (warehouse : Path) (width : BucketWidth) (file : DataFile) : Option ManifestEntry :=
  (HeightRange.ofDirName? file.partitionDir.toList).map fun range =>
    { status := ManifestEntry.added
      snapshotId := none
      sequenceNumber := none
      dataFile := .ofDataFile file (range.bucket width) warehouse }

/-- The manifest of those files whose directory is named for a range of heights. -/
def ofFiles (files : List DataFile) (warehouse : Path) (width : BucketWidth) : Manifest where
  entries := files.filterMap (entryOf? warehouse width)

end Manifest

namespace ManifestList

/-- The list of the only manifest of a snapshot that adds some files. -/
def ofFiles (stamp : Stamp) (files : List DataFile) : ManifestList where
  manifestLength := 1
  manifests :=
    [{ manifestPath := stamp.manifestFileName
       addedSnapshotId := stamp.snapshotId
       partitionSpecId := 0
       sequenceNumber := 1
       minSequenceNumber := 1
       addedFilesCount := UInt64.ofNat files.length
       existingFilesCount := 0
       deletedFilesCount := 0
       addedRowsCount := DataFile.totalRecords files
       existingRowsCount := 0
       deletedRowsCount := 0 }]

end ManifestList

end ExportKit.Table
