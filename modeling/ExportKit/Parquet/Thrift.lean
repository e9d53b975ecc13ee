import ExportKit.Text.Utf8

/-!
Records in the compact binary protocol of Thrift. A record is a run of fields, each a header with
a type and an id followed by a value, and ends at a header of type zero.

A value is read as the shape says that is expected for the id of its field; the type in the header
matters only for fields that no shape is known for, which are skipped.
-/
namespace ExportKit.Parquet.Thrift

/-- What is expected of a value. -/
inductive Shape where
  | bool
  | byte
  /-- An integer of a number of bits. -/
  | int (bits : Nat)
  | binary
  /-- Binary data that has to be UTF-8. -/
  | text
  | list (item : Shape)
  /-- A record with its known fields: id, whether it has to be present, and shape. -/
  | record (fields : List (Int × Bool × Shape))
  /-- A record that has exactly one field, one of those listed. -/
  | choice (fields : List (Int × Bool × Shape))

namespace Shape

def required (id : Int) (shape : Shape) : Int × Bool × Shape := (id, true, shape)

def optional (id : Int) (shape : Shape) : Int × Bool × Shape := (id, false, shape)

end Shape

/-- A value that was read. -/
inductive Value where
  | bool (value : Bool)
  | int (value : Int)
  | binary (bytes : List UInt8)
  | text (value : String)
  | list (items : List Value)
  /-- The fields of a record, the last one first. -/
  | record (fields : List (Int × Value))
  deriving Inhabited

namespace Value

/-- The last field of a record with a given id. -/
def field? (value : Value) (id : Int) : Option Value :=
  match value with
  | .record fields => fields.lookup id
  | _ => none

def int? (value : Value) (id : Int) : Option Int :=
  match value.field? id with
  | some (.int n) => some n
  | _ => none

def items (value : Value) (id : Int) : List Value :=
  match value.field? id with
  | some (.list items) => items
  | _ => []

def text? (value : Value) (id : Int) : Option String :=
  match value.field? id with
  | some (.text content) => some content
  | _ => none

end Value

/-- What lies before a reader. -/
structure Cursor where
  rest : List UInt8
  /-- The number of all bytes, those before the reader included. -/
  size : Nat
  /-- The id of the last field of the record that is being read. -/
  lastId : Int
  /-- A truth value that a header held and that was not asked for yet. -/
  pending : Option Bool

/-- Reads a value, or refuses what lies before it. -/
abbrev Reader (α : Type) := StateT Cursor Option α

namespace Reader

def refuse {α : Type} : Reader α := fun _ => none

def byte : Reader UInt8 := fun cursor =>
  match cursor.rest with
  | [] => none
  | b :: rest => some (b, { cursor with rest })

def bytes (count : Nat) : Reader (List UInt8) := fun cursor =>
  let taken := cursor.rest.take count
  if taken.length = count then some (taken, { cursor with rest := cursor.rest.drop count })
  else none

/-- The bytes up to the first one below 128 as a number, seven bits each, the lowest first. Bits
are placed modulo 64. -/
def groups (shift value : UInt64) : List UInt8 → Option (UInt64 × List UInt8)
  | [] => none
  | b :: rest =>
    let value := value ||| ((b &&& 0x7f).toUInt64 <<< shift)
    if b < 0x80 then some (value, rest) else groups (shift + 7) value rest

def unsigned : Reader UInt64 := fun cursor =>
  (groups 0 0 cursor.rest).map fun (value, rest) => (value, { cursor with rest })

/-- The signed number of a given width that the lowest bits of an unsigned one stand for. The
numbers 0, 1, 2, 3, … stand for 0, -1, 1, -2, …. -/
def signed (bits : Nat) (value : UInt64) : Int :=
  let n := value.toNat
  (if n % 2 = 0 then (n / 2 : Int) else -(n / 2 : Int) - 1).bmod (1 <<< bits)

def int (bits : Nat) : Reader Int := return signed bits (← unsigned)

/-- A truth value: the one that the header of the field held, or else a byte, 1 for true and 2 for
false. -/
def bool : Reader Bool := fun cursor =>
  match cursor.pending with
  | some value => some (value, { cursor with pending := none })
  | none =>
    match cursor.rest with
    | 1 :: rest => some (true, { cursor with rest })
    | 2 :: rest => some (false, { cursor with rest })
    | _ => none

def binary : Reader (List UInt8) := do bytes (← unsigned).toNat

/-- Text after its length in bytes. -/
def text : Reader String := do
  match Utf8.decode? (← binary) with
  | some chars => return String.ofList chars
  | none => refuse

def isType (type : Nat) : Bool := type ≤ 12

/-- The type of the items of a list, which for truth values is always 1. -/
def itemType (type : Nat) : Reader Nat :=
  if isType type ∧ type ≠ 2 then return type else refuse

/-- The number of items of a list. A negative one stands for none. -/
def itemCount : Reader Nat := return (Int.bmod (← unsigned).toNat UInt32.size).toNat

/-- The header of a list: the type of the items and their number. -/
def listHeader : Reader (Nat × Nat) := do
  let header ← byte
  let type ← itemType (header.toNat % 16)
  let count := header.toNat / 16
  if count = 15 then return (type, ← itemCount) else return (type, count)

/-- The header of a field: the type of its value and its id, or nothing at the end of a record.
A truth value is part of the type. -/
def fieldHeader : Reader (Option (Nat × Int)) := do
  let header ← byte
  let type := header.toNat % 16
  let step := header.toNat / 16
  if type = 0 then return none
  else if !isType type then refuse
  else
    if type = 1 ∨ type = 2 then modify fun cursor => { cursor with pending := some (type == 1) }
    let id ← if step = 0 then int 16 else pure ((← get).lastId + (step : Int))
    if id ≤ Int16.maxValue.toInt then
      modify fun cursor => { cursor with lastId := id }
      return some (type, id)
    else refuse

/-- Reads the fields of a record with at most `fuel` of them, `field` reading a value given its
type and id. The last field comes first. -/
def fieldsUpTo {α : Type} (field : Nat → Int → Reader (Option α)) :
    Nat → List α → Reader (List α)
  | 0, _ => refuse
  | fuel + 1, done => do
    match ← fieldHeader with
    | none => return done
    | some (type, id) =>
      match ← field type id with
      | some value => fieldsUpTo field fuel (value :: done)
      | none => fieldsUpTo field fuel done

/-- Reads a record. It has no more fields than there are bytes, as each takes one at least. -/
def recordOf {α : Type} (field : Nat → Int → Reader (Option α)) : Reader (List α) := do
  let outer ← get
  set { outer with lastId := 0 }
  let fields ← fieldsUpTo field (outer.size + 1) []
  modify fun cursor => { cursor with lastId := outer.lastId }
  return fields

/-- Reads an item again and again. -/
def times {α : Type} (item : Reader α) : Nat → Reader (List α)
  | 0 => return []
  | count + 1 => do
    let first ← item
    return first :: (← times item count)

/-- How deep a skipped value may be. -/
def maxSkipDepth : Nat := 64

/-- Skips a value of a given type. Text has to be UTF-8 here, too. -/
def skip : Nat → Nat → Reader Unit
  | 0, _ => refuse
  | depth + 1, type => do
    match type with
    | 1 | 2 => discard bool
    | 3 => discard byte
    | 4 | 5 | 6 => discard unsigned
    | 7 => discard (bytes 8)
    | 8 => discard text
    | 9 | 10 =>
      let (type, count) ← listHeader
      discard (times (skip depth type) count)
    | 11 =>
      let count ← itemCount
      if count = 0 then return
      else
        let types ← byte
        let keyType ← itemType (types.toNat / 16)
        let valueType ← itemType (types.toNat % 16)
        discard (times (do skip depth keyType; skip depth valueType) count)
    | 12 => discard (recordOf fun type _ => do skip depth type; return (none : Option Unit))
    | _ => refuse

/-- Whether all fields that have to be present are. -/
def isComplete (fields : List (Int × Bool × Shape)) (values : List (Int × Value)) : Bool :=
  fields.all fun (id, isRequired, _) => !isRequired || (values.lookup id).isSome

/-- Reads a field by the reader that is known for its id, and skips it if there is none. -/
def known (readers : List (Int × Reader Value)) (type : Nat) (id : Int) :
    Reader (Option (Int × Value)) := do
  match readers.lookup id with
  | some reader => return some (id, ← reader)
  | none => skip maxSkipDepth type; return none

mutual

def value : Shape → Reader Value
  | .bool => return .bool (← bool)
  | .byte => return .int (Int.bmod (← byte).toNat 256)
  | .int bits => return .int (← int bits)
  | .binary => return .binary (← binary)
  | .text => return .text (← text)
  | .list item => do
    let (_, count) ← listHeader
    return .list (← times (value item) count)
  | .record fields => do
    let values ← recordOf (known (readers fields))
    if isComplete fields values then return .record values else refuse
  | .choice fields => do
    let values ← recordOf fun type id => do return some (← known (readers fields) type id)
    match values with
    | [some field] => return .record [field]
    | _ => refuse

def readers : List (Int × Bool × Shape) → List (Int × Reader Value)
  | [] => []
  | (id, _, shape) :: rest => (id, value shape) :: readers rest

end

/-- Reads a value of a given shape at the start of some bytes. -/
def run? (shape : Shape) (bytes : List UInt8) : Option Value :=
  (value shape { rest := bytes, size := bytes.length, lastId := 0, pending := none }).map (·.1)

end Reader

end ExportKit.Parquet.Thrift
