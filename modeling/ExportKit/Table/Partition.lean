import ExportKit.Json.Printer
import ExportKit.Json.Reader

/-!
Partitioning by block height. Data files lie in directories named for the heights that they cover,
`height=<first>-<last>`, and a file belongs to the bucket of its first height.
-/
namespace ExportKit.Table

/-- How many heights a bucket covers. -/
abbrev BucketWidth := { width : UInt64 // width ≠ 0 }

/-- The heights from `first` to `last`, both included. -/
structure HeightRange where
  first : UInt64
  last : UInt64
  ordered : first ≤ last
  deriving DecidableEq

namespace HeightRange

/-- What the name of a partition directory begins with. -/
def marker : List Char := "height=".toList

/-- The range that the name of a partition directory spells: digits, a hyphen, digits. Any other
name, and a range that ends before it begins, spells none. -/
def ofDirName? (name : List Char) : Option HeightRange := do
  let range ← marker.isPrefixOf? name
  let first ← Digits.readUInt64? (range.takeWhile (· ≠ '-'))
  match range.dropWhile (· ≠ '-') with
  | _ :: rest =>
    let last ← Digits.readUInt64? rest
    if ordered : first ≤ last then some ⟨first, last, ordered⟩ else none
  | [] => none

def dirName (range : HeightRange) : List Char :=
  marker ++ Digits.write range.first.toNat ++ '-' :: Digits.write range.last.toNat

def bucket (range : HeightRange) (width : BucketWidth) : UInt64 := range.first / width.val

end HeightRange

/-- One column of a partition spec. -/
structure PartitionField where
  sourceId : Int32
  fieldId : Int32
  name : String
  transform : String
  deriving DecidableEq

/-- How the rows of a table are partitioned. -/
structure PartitionSpec where
  specId : Int32
  fields : List PartitionField
  deriving DecidableEq

namespace PartitionSpec

/-- The id of the only partition field of the exported tables. -/
def bucketFieldId : Int32 := 1000

/-- The spec that puts a column into buckets of a given width. -/
def heightBucket (sourceId : Int32) (width : BucketWidth) : PartitionSpec where
  specId := 0
  fields :=
    [{ sourceId
       fieldId := bucketFieldId
       name := "height_bucket"
       transform := "bucket[" ++ String.ofList (Digits.write width.val.toNat) ++ "]" }]

/-- The highest partition field id, or that of the exported tables without fields. -/
def lastPartitionId (spec : PartitionSpec) : Int32 :=
  ((spec.fields.map (·.fieldId)).max?).getD bucketFieldId

end PartitionSpec

/-! The documents of partition specs. -/

open Json.Reader

namespace PartitionField

def toJson (field : PartitionField) : Json :=
  .object
    [("source-id", .int field.sourceId.toInt),
      ("field-id", .int field.fieldId.toInt),
      ("name", .string field.name),
      ("transform", .string field.transform)]

def reader : Json.Reader PartitionField := fun depth source => do
  match ← record ["source-id", "field-id", "name", "transform"] depth source with
  | (depth, [sourceId, fieldId, name, transform]) =>
    some
      { sourceId := ← required int32 depth sourceId
        fieldId := ← required int32 depth fieldId
        name := ← required string depth name
        transform := ← required string depth transform }
  | _ => none

end PartitionField

namespace PartitionSpec

def toJson (spec : PartitionSpec) : Json :=
  .object
    [("spec-id", .int spec.specId.toInt),
      ("fields", .array (spec.fields.map PartitionField.toJson))]

def reader : Json.Reader PartitionSpec := fun depth source => do
  match ← record ["spec-id", "fields"] depth source with
  | (depth, [specId, fields]) =>
    some
      { specId := ← required int32 depth specId
        fields := ← required (list PartitionField.reader) depth fields }
  | _ => none

end PartitionSpec

end ExportKit.Table
