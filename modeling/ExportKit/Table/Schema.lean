import ExportKit.Json.Printer
import ExportKit.Json.Reader

/-!
Schemas of tables, and those of the three exported tables. Field ids are stable: readers match the
columns of data files to fields through them.
-/
namespace ExportKit.Table

/-- The type of a column. -/
inductive ColumnType where
  | string
  | long
  | int
  | binary
  deriving DecidableEq, Repr

/-- A column of a table. -/
structure SchemaField where
  id : Int32
  name : String
  isRequired : Bool
  type : ColumnType
  deriving DecidableEq

/-- The columns of a table. -/
structure Schema where
  schemaId : Int32
  fields : List SchemaField
  deriving DecidableEq

namespace Schema

/-- The id of the first field with a given name. -/
def fieldId? (schema : Schema) (name : String) : Option Int32 :=
  (schema.fields.find? fun field => field.name = name).map (·.id)

/-- The highest field id, or 0 without fields. -/
def lastColumnId (schema : Schema) : Int32 :=
  ((schema.fields.map (·.id)).max?).getD 0

end Schema

/-- The exported tables. -/
inductive Kind where
  | blocks
  | transactions
  | tags
  deriving DecidableEq, Repr

namespace Kind

/-- The tables in the order in which they are processed. -/
def all : List Kind := [.blocks, .transactions, .tags]

/-- The name of a table, which is also that of its directory. -/
def name : Kind → String
  | .blocks => "blocks"
  | .transactions => "transactions"
  | .tags => "tags"

/-- The columns of a table: id, name, whether a value is required, and type. -/
def columns : Kind → List (Int32 × String × Bool × ColumnType)
  | .blocks =>
    [(1, "indep_hash", true, .string),
      (2, "height", true, .long),
      (3, "previous_block", false, .string),
      (4, "nonce", false, .string),
      (5, "hash", false, .string),
      (6, "block_timestamp", false, .long),
      (7, "tx_count", false, .int),
      (8, "block_size", false, .long)]
  | .transactions =>
    [(1, "id", true, .string),
      (2, "indexed_at", false, .long),
      (3, "block_transaction_index", false, .int),
      (4, "is_data_item", true, .int),
      (5, "target", false, .string),
      (6, "quantity", false, .string),
      (7, "reward", false, .string),
      (8, "anchor", false, .string),
      (9, "data_size", false, .long),
      (10, "content_type", false, .string),
      (11, "format", false, .int),
      (12, "height", true, .long),
      (13, "owner_address", false, .string),
      (14, "data_root", false, .string),
      (15, "parent", false, .string),
      (16, "offset", false, .long),
      (17, "size", false, .long),
      (18, "data_offset", false, .long),
      (19, "owner_offset", false, .long),
      (20, "owner_size", false, .long),
      (21, "owner", false, .binary),
      (22, "signature_offset", false, .long),
      (23, "signature_size", false, .long),
      (24, "signature_type", false, .int),
      (25, "root_transaction_id", false, .string),
      (26, "root_parent_offset", false, .long)]
  | .tags =>
    [(1, "height", true, .long),
      (2, "id", true, .string),
      (3, "tag_index", true, .int),
      (4, "indexed_at", false, .long),
      (5, "tag_name", false, .string),
      (6, "tag_value", false, .string),
      (7, "is_data_item", true, .int)]

def schema (kind : Kind) : Schema where
  schemaId := 0
  fields := kind.columns.map fun (id, name, isRequired, type) => ⟨id, name, isRequired, type⟩

def heightColumn : String := "height"

/-- The id of the column that the table is partitioned on. -/
def heightFieldId (kind : Kind) : Int32 := (kind.schema.fieldId? heightColumn).getD 0

end Kind

/-! The documents of schemas. -/

open Json.Reader

namespace ColumnType

/-- The types by their names in documents. -/
def words : List (String × ColumnType) :=
  [("string", .string), ("long", .long), ("int", .int), ("binary", .binary)]

def word : ColumnType → String
  | .string => "string"
  | .long => "long"
  | .int => "int"
  | .binary => "binary"

end ColumnType

namespace SchemaField

def toJson (field : SchemaField) : Json :=
  .object
    [("id", .int field.id.toInt),
      ("name", .string field.name),
      ("required", .bool field.isRequired),
      ("type", .string field.type.word)]

def reader : Json.Reader SchemaField := fun depth source => do
  match ← record ["id", "name", "required", "type"] depth source with
  | (depth, [id, name, isRequired, type]) =>
    some
      { id := ← required int32 depth id
        name := ← required string depth name
        isRequired := ← required bool depth isRequired
        type := ← required (word ColumnType.words) depth type }
  | _ => none

end SchemaField

namespace Schema

def toJson (schema : Schema) : Json :=
  .object
    [("type", .string "struct"),
      ("schema-id", .int schema.schemaId.toInt),
      ("fields", .array (schema.fields.map SchemaField.toJson))]

def reader : Json.Reader Schema := fun depth source => do
  match ← record ["type", "schema-id", "fields"] depth source with
  | (depth, [type, schemaId, fields]) =>
    let () ← required (word [("struct", ())]) depth type
    some
      { schemaId := ← required int32 depth schemaId
        fields := ← required (list SchemaField.reader) depth fields }
  | _ => none

end Schema

namespace Kind

def reader : Json.Reader Kind :=
  word (all.map fun kind => (kind.name, kind))

end Kind

end ExportKit.Table
