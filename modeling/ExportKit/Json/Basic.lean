import ExportKit.SortedMap

/-!
JSON values. An object keeps its fields in the order in which they are to be written; `Json.Free`
singles out the values that a document may hold without a schema of their own, whose objects have
strictly increasing keys and whose integers fit in 64 bits.
-/
namespace ExportKit

/-- A JSON value. -/
inductive Json where
  | null
  | bool (value : Bool)
  | int (value : Int)
  | double (value : Float)
  | string (value : String)
  | array (items : List Json)
  | object (fields : List (String × Json))
  deriving Inhabited

namespace Json

/-- The values without a schema: integers fit in 64 bits, signed or unsigned, other numbers are
finite, and the keys of an object increase strictly. -/
inductive Free : Json → Prop
  | null : Free .null
  | bool (value : Bool) : Free (.bool value)
  | int {value : Int} (low : Int64.minValue.toInt ≤ value) (high : value < UInt64.size) :
      Free (.int value)
  | double {value : Float} (finite : value.isFinite) : Free (.double value)
  | string (value : String) : Free (.string value)
  | array {items : List Json} (free : ∀ item ∈ items, Free item) : Free (.array items)
  | object {fields : List (String × Json)}
      (sorted : fields.Pairwise fun a b => compare a.1 b.1 = .lt)
      (free : ∀ field ∈ fields, Free field.2) : Free (.object fields)

end Json

/-- A JSON value without a schema of its own. -/
structure FreeJson where
  json : Json
  free : json.Free

namespace FreeJson

def null : FreeJson := ⟨.null, .null⟩

instance : Inhabited FreeJson := ⟨null⟩

def bool (value : Bool) : FreeJson := ⟨.bool value, .bool value⟩

def int (value : Int) (low : Int64.minValue.toInt ≤ value) (high : value < UInt64.size) :
    FreeJson :=
  ⟨.int value, .int low high⟩

/-- A free number that is not an integer of 64 bits. -/
def double (value : Float) (finite : value.isFinite) : FreeJson := ⟨.double value, .double finite⟩

def string (value : String) : FreeJson := ⟨.string value, .string value⟩

def array (items : List FreeJson) : FreeJson :=
  ⟨.array (items.map (·.json)), .array fun item h => by
    obtain ⟨value, -, rfl⟩ := List.mem_map.1 h
    exact value.free⟩

/-- A free object; its fields are written in key order. -/
def object (fields : SortedMap String FreeJson) : FreeJson where
  json := .object (fields.entries.map fun (key, value) => (key, value.json))
  free := .object
    (List.pairwise_map.2 fields.sorted)
    fun field h => by
      obtain ⟨entry, -, rfl⟩ := List.mem_map.1 h
      exact entry.2.free

end FreeJson

end ExportKit
