import ExportKit.Parquet.SchemaTree

/-!
Footers of Parquet files. The last eight bytes of a file are the length of its metadata and a magic
word; the metadata lies before them and tells for every row group what its column chunks hold.
-/
namespace ExportKit.Parquet

open Thrift (Value Shape Reader)
open Thrift.Shape (required optional)

/-- What the values of one column in one row group take up. Counts are as the file states them,
and may be negative. -/
structure ColumnChunk where
  /-- The names that lead to the column in the schema. -/
  path : List String
  compressedSize : Int64
  valueCount : Int64
  /-- The number of nulls, where there are statistics. -/
  nullCount : Option UInt64
  deriving DecidableEq

abbrev RowGroup := List ColumnChunk

/-- What the footer of a file says about its content. -/
structure Footer where
  rowCount : Int64
  rowGroups : List RowGroup
  deriving DecidableEq

/-! The shapes of the metadata. -/

def keyValueShape : Shape := .record [required 1 .text, optional 2 .text]

def statisticsShape : Shape :=
  .record
    [optional 1 .binary, -- greatest value, in the older order
      optional 2 .binary, -- least value, in the older order
      optional 3 (.int 64), -- number of nulls
      optional 4 (.int 64), -- number of distinct values
      optional 5 .binary, -- greatest value
      optional 6 .binary, -- least value
      optional 7 .bool, -- whether the greatest value is exact
      optional 8 .bool] -- whether the least value is exact

def pageEncodingShape : Shape :=
  .record [required 1 (.int 32), required 2 (.int 32), required 3 (.int 32)]

/-- Sizes of a column chunk before compression, and histograms of levels. -/
def sizesShape : Shape :=
  .record [optional 1 (.int 64), optional 2 (.list (.int 64)), optional 3 (.list (.int 64))]

def columnMetaDataShape : Shape :=
  .record
    [required 1 (.int 32), -- physical type
      required 2 (.list (.int 32)), -- encodings
      required 3 (.list .text), -- path
      required 4 (.int 32), -- compression
      required 5 (.int 64), -- number of values
      required 6 (.int 64), -- size before compression
      required 7 (.int 64), -- size after compression
      optional 8 (.list keyValueShape), -- keys and values
      required 9 (.int 64), -- place of the first data page
      optional 10 (.int 64), -- place of the index page
      optional 11 (.int 64), -- place of the dictionary page
      optional 12 statisticsShape, -- statistics
      optional 13 (.list pageEncodingShape), -- encodings of pages
      optional 14 (.int 64), -- place of the filter
      optional 15 (.int 32), -- length of the filter
      optional 16 sizesShape] -- sizes

def columnCryptoShape : Shape :=
  .choice
    [optional 1 (.record []),
      optional 2 (.record [required 1 (.list .text), optional 2 .binary])]

def columnChunkShape : Shape :=
  .record
    [optional 1 .text, -- file
      required 2 (.int 64), -- place in the file
      optional 3 columnMetaDataShape, -- what the chunk holds
      optional 4 (.int 64), -- place of the offset index
      optional 5 (.int 32), -- length of the offset index
      optional 6 (.int 64), -- place of the column index
      optional 7 (.int 32), -- length of the column index
      optional 8 columnCryptoShape, -- key
      optional 9 .binary] -- what the chunk holds, encrypted

def sortingColumnShape : Shape := .record [required 1 (.int 32), required 2 .bool, required 3 .bool]

def rowGroupShape : Shape :=
  .record
    [required 1 (.list columnChunkShape), -- column chunks
      required 2 (.int 64), -- size before compression
      required 3 (.int 64), -- number of rows
      optional 4 (.list sortingColumnShape), -- sorting columns
      optional 5 (.int 64), -- place in the file
      optional 6 (.int 64), -- size after compression
      optional 7 (.int 16)] -- number of the row group

def columnOrderShape : Shape := .choice [optional 1 (.record [])]

def encryptionShape : Shape := .record [optional 1 .binary, optional 2 .binary, optional 3 .bool]

def metadataShape : Shape :=
  .record
    [required 1 (.int 32), -- version
      required 2 (.list SchemaTree.elementShape), -- schema
      required 3 (.int 64), -- number of rows
      required 4 (.list rowGroupShape), -- row groups
      optional 5 (.list keyValueShape), -- keys and values
      optional 6 .text, -- writer
      optional 7 (.list columnOrderShape), -- column orders
      optional 8 (.choice [optional 1 encryptionShape, optional 2 encryptionShape]), -- encryption
      optional 9 .binary] -- key of the signature

/-! What the metadata says. -/

def isEncoding (code : Int) : Bool := code = 0 || (2 ≤ code && code ≤ 9)

def isCompression (code : Int) : Bool := 0 ≤ code && code ≤ 7

def isPageType (code : Int) : Bool := 0 ≤ code && code ≤ 3

/-- Whether a value that was read is a code of some kind. -/
def isCode (test : Int → Bool) : Value → Bool
  | .int code => test code
  | _ => false

/-- The number of nulls of a column chunk, which is zero where the statistics leave it out; the
outer option says whether the number is possible. -/
def nullCount? (columnMetaData : Value) : Option (Option UInt64) :=
  match columnMetaData.field? 12 with
  | none => some none
  | some statistics =>
    let count := (statistics.int? 3).getD 0
    if count < 0 then none else some (some (UInt64.ofNat count.toNat))

namespace ColumnChunk

/-- The chunk of the column that `path` leads to. -/
def ofValue? (path : List String) (chunk : Value) : Option ColumnChunk := do
  let columnMetaData ← chunk.field? 3
  let _ ← PhysicalType.ofCode? (← columnMetaData.int? 1)
  guard ((columnMetaData.items 2).all (isCode isEncoding))
  guard (isCompression (← columnMetaData.int? 4))
  guard ((columnMetaData.items 13).all fun pages =>
    (pages.int? 1).any isPageType && (pages.int? 2).any isEncoding)
  some
    { path
      compressedSize := Int64.ofInt (← columnMetaData.int? 7)
      valueCount := Int64.ofInt (← columnMetaData.int? 5)
      nullCount := ← nullCount? columnMetaData }

end ColumnChunk

/-- The row group that a value describes. It has a chunk for every column. -/
def rowGroup? (paths : List (List String)) (group : Value) : Option RowGroup :=
  let chunks := group.items 1
  if chunks.length = paths.length then
    (paths.zip chunks).mapM fun (path, chunk) => ColumnChunk.ofValue? path chunk
  else none

namespace Footer

/-- The footer with given metadata. If it states the orders of columns it does so for all. -/
def ofMetadata? (metadata : Value) : Option Footer := do
  let schema ← SchemaTree.ofElements? (metadata.items 2)
  let paths := schema.columnPaths
  let rowGroups ← (metadata.items 4).mapM (rowGroup? paths)
  guard ((metadata.field? 7).isNone || (metadata.items 7).length = paths.length)
  some { rowCount := Int64.ofInt (← metadata.int? 3), rowGroups }

/-- The word that ends a file. -/
def magic : List UInt8 := "PAR1".toList.map fun c => c.toNat.toUInt8

/-- The number that bytes stand for, the lowest byte first. -/
def littleEndian (bytes : List UInt8) : Nat := bytes.foldr (fun b n => b.toNat + 256 * n) 0

def metadataBytes? (content : List UInt8) : Option (List UInt8) :=
  let tail := content.drop (content.length - 8)
  let length := littleEndian (tail.take 4)
  if content.length < 8 ∨ tail.drop 4 ≠ magic ∨ content.length < length + 8 then none
  else some ((content.drop (content.length - 8 - length)).take length)

def ofContent? (content : List UInt8) : Option Footer := do
  ofMetadata? (← Reader.run? metadataShape (← metadataBytes? content))

end Footer

end ExportKit.Parquet
