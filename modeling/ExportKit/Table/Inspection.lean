import ExportKit.Parquet.Footer
import ExportKit.Table.DataFile
import ExportKit.Table.Schema

/-!
Statistics of a data file from its footer. Columns are matched to fields of the table by the first
name of their path, and what a footer says about columns that the table does not have is left out.
-/
namespace ExportKit.Table

open Parquet (ColumnChunk Footer)

/-- A count, with zero for a negative one. -/
def clampCount (count : Int64) : UInt64 := UInt64.ofNat count.toInt.toNat

/-- The field of a table that a column chunk holds values of. -/
def chunkField? (schema : Schema) (chunk : ColumnChunk) : Option Int32 :=
  chunk.path.head?.bind schema.fieldId?

/-- The column chunks of a footer that hold values of fields of a table, with the ids of those. -/
def knownChunks (schema : Schema) (footer : Footer) : List (Int32 × ColumnChunk) :=
  footer.rowGroups.flatten.filterMap fun chunk =>
    (chunkField? schema chunk).map fun id => (id, chunk)

namespace FileStats

/-- The statistics that a footer gives for the fields of a table. A field has a number of nulls
only if each of its chunks has one. -/
def ofFooter (schema : Schema) (footer : Footer) : FileStats :=
  let chunks := knownChunks schema footer
  let sums (count : ColumnChunk → UInt64) : SortedMap Int32 UInt64 :=
    .totals (chunks.map fun (id, chunk) => (id, count chunk))
  { recordCount := clampCount footer.rowCount
    columnSizes := sums fun chunk => clampCount chunk.compressedSize
    valueCounts := sums fun chunk => clampCount chunk.valueCount
    nullValueCounts := (sums fun chunk => chunk.nullCount.getD 0).filterKeys fun id =>
      chunks.all fun (other, chunk) => other ≠ id || chunk.nullCount.isSome }

/-- The statistics of a file with given content, if it has a readable footer. -/
def ofContent? (schema : Schema) (content : List UInt8) : Option FileStats :=
  (Footer.ofContent? content).map (ofFooter schema)

end FileStats

end ExportKit.Table
