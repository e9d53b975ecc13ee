import ExportKit.Path
import ExportKit.SortedMap

/-!
Data files as they are found in a warehouse, with the statistics of those that were inspected.
-/
namespace ExportKit.Table

/-- Statistics of one data file. The maps are keyed by the field ids of the table. -/
structure FileStats where
  recordCount : UInt64
  columnSizes : SortedMap Int32 UInt64
  valueCounts : SortedMap Int32 UInt64
  nullValueCounts : SortedMap Int32 UInt64
  deriving DecidableEq, Inhabited

/-- A data file of a table. -/
structure DataFile where
  path : Path
  size : UInt64
  /-- The name of the directory that holds the file. -/
  partitionDir : String
  /-- Present if the file was inspected. -/
  stats : Option FileStats
  deriving DecidableEq

namespace DataFile

/-- The number of rows of a file, as far as it is known. -/
def recordCount (file : DataFile) : UInt64 := (file.stats.map (·.recordCount)).getD 0

def totalRecords (files : List DataFile) : UInt64 :=
  files.foldl (fun total file => total + file.recordCount) 0

def totalSize (files : List DataFile) : UInt64 :=
  files.foldl (fun total file => total + file.size) 0

def partitionCount (files : List DataFile) : Nat := (files.map (·.partitionDir)).eraseDups.length

end DataFile

end ExportKit.Table
