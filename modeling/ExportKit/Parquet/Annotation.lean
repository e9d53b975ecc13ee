import ExportKit.Parquet.Thrift

/-!
Types of Parquet columns. A column has a physical type, and up to two annotations say what its
values mean: a converted type and, in newer files, a logical type. The annotations of a column have
to agree with each other and with its physical type.
-/
namespace ExportKit.Parquet

open Thrift (Value Shape)
open Thrift.Shape (required optional)

/-- How the values of a column are stored. -/
inductive PhysicalType where
  | boolean
  | int32
  | int64
  | int96
  | float
  | double
  | byteArray
  | fixedLenByteArray
  deriving DecidableEq

inductive TimeUnit where
  | millis
  | micros
  | nanos
  deriving DecidableEq

/-- The older kind of annotation. -/
inductive ConvertedType where
  | utf8
  | map
  | mapKeyValue
  | list
  | enum
  | decimal
  | date
  | timeMillis
  | timeMicros
  | timestampMillis
  | timestampMicros
  | uint8
  | uint16
  | uint32
  | uint64
  | int8
  | int16
  | int32
  | int64
  | json
  | bson
  | interval
  deriving DecidableEq

/-- The newer kind of annotation. -/
inductive LogicalType where
  | string
  | map
  | list
  | enum
  | decimal (scale precision : Int)
  | date
  | time (unit : TimeUnit)
  | timestamp (unit : TimeUnit)
  | integer (width : Int) (isSigned : Bool)
  | unknown
  | json
  | bson
  | uuid
  | float16
  deriving DecidableEq

namespace PhysicalType

/-- The types in the order of their codes. -/
def all : List PhysicalType :=
  [.boolean, .int32, .int64, .int96, .float, .double, .byteArray, .fixedLenByteArray]

def ofCode? (code : Int) : Option PhysicalType := if 0 ≤ code then all[code.toNat]? else none

end PhysicalType

namespace ConvertedType

def all : List ConvertedType :=
  [.utf8, .map, .mapKeyValue, .list, .enum, .decimal, .date, .timeMillis, .timeMicros,
    .timestampMillis, .timestampMicros, .uint8, .uint16, .uint32, .uint64, .int8, .int16, .int32,
    .int64, .json, .bson, .interval]

def ofCode? (code : Int) : Option ConvertedType := if 0 ≤ code then all[code.toNat]? else none

end ConvertedType

namespace LogicalType

/-- A record without fields of its own. -/
def marker : Shape := .record []

def unitShape : Shape := .choice [optional 1 marker, optional 2 marker, optional 3 marker]

/-- The shape of a time of day or a timestamp: whether it is in universal time, and the unit. -/
def timeShape : Shape := .record [required 1 .bool, required 2 unitShape]

def shape : Shape :=
  .choice
    [optional 1 marker,
      optional 2 marker,
      optional 3 marker,
      optional 4 marker,
      optional 5 (.record [required 1 (.int 32), required 2 (.int 32)]),
      optional 6 marker,
      optional 7 timeShape,
      optional 8 timeShape,
      optional 10 (.record [required 1 .byte, required 2 .bool]),
      optional 11 marker,
      optional 12 marker,
      optional 13 marker,
      optional 14 marker,
      optional 15 marker]

def unitOf? (time : Value) : Option TimeUnit :=
  match time.field? 2 with
  | some (.record [(1, _)]) => some .millis
  | some (.record [(2, _)]) => some .micros
  | some (.record [(3, _)]) => some .nanos
  | _ => none

def ofValue? (value : Value) : Option LogicalType :=
  match value with
  | .record [(1, _)] => some .string
  | .record [(2, _)] => some .map
  | .record [(3, _)] => some .list
  | .record [(4, _)] => some .enum
  | .record [(5, number)] => do some (.decimal (← number.int? 1) (← number.int? 2))
  | .record [(6, _)] => some .date
  | .record [(7, kind)] => (unitOf? kind).map .time
  | .record [(8, kind)] => (unitOf? kind).map .timestamp
  | .record [(10, kind)] =>
    match kind.field? 1, kind.field? 2 with
    | some (.int width), some (.bool isSigned) => some (.integer width isSigned)
    | _, _ => none
  | .record [(11, _)] => some .unknown
  | .record [(12, _)] => some .json
  | .record [(13, _)] => some .bson
  | .record [(14, _)] => some .uuid
  | .record [(15, _)] => some .float16
  | _ => none

/-- The converted type that says the same as a logical type. -/
def converted? : LogicalType → Option ConvertedType
  | .string => some .utf8
  | .map => some .map
  | .list => some .list
  | .enum => some .enum
  | .decimal _ _ => some .decimal
  | .date => some .date
  | .time .millis => some .timeMillis
  | .time .micros => some .timeMicros
  | .timestamp .millis => some .timestampMillis
  | .timestamp .micros => some .timestampMicros
  | .integer 8 true => some .int8
  | .integer 16 true => some .int16
  | .integer 32 true => some .int32
  | .integer 64 true => some .int64
  | .integer 8 false => some .uint8
  | .integer 16 false => some .uint16
  | .integer 32 false => some .uint32
  | .integer 64 false => some .uint64
  | .json => some .json
  | .bson => some .bson
  | _ => none

end LogicalType

/-- The type of a column as its schema states it. -/
structure ColumnType where
  physical : PhysicalType
  /-- The bytes of a value of a fixed length, and -1 where none is given. -/
  length : Int
  /-- The digits after the decimal point, and -1 where none are given. -/
  scale : Int
  /-- The number of digits, and -1 where none is given. -/
  precision : Int
  converted : Option ConvertedType
  logical : Option LogicalType

namespace ColumnType

/-- Whether numbers of `precision` digits fit in `length` bytes with a sign. Beyond 128 bytes any
number is taken to fit. -/
def digitsFit (precision length : Nat) : Bool :=
  128 < length || (precision < 400 && Nat.pow 10 precision < 1 <<< (8 * length - 1))

/-- Whether scale and precision suit a decimal of the physical type. -/
def isDecimal (type : ColumnType) : Bool :=
  1 ≤ type.precision && 0 ≤ type.scale && type.scale ≤ type.precision &&
    match type.physical with
    | .int32 => type.precision ≤ 9
    | .int64 => type.precision ≤ 18
    | .byteArray => true
    | .fixedLenByteArray => digitsFit type.precision.toNat type.length.toNat
    | _ => false

def admitsLogical (type : ColumnType) : LogicalType → Bool
  | .map | .list => false
  | .string | .enum | .json | .bson => type.physical = .byteArray
  | .decimal scale precision =>
    scale = type.scale && precision = type.precision && type.isDecimal
  | .date | .unknown | .time .millis => type.physical = .int32
  | .time _ | .timestamp _ => type.physical = .int64
  | .integer width _ =>
    type.physical = .int32 && width ≤ 32 || type.physical = .int64 && width = 64
  | .uuid => type.physical = .fixedLenByteArray && type.length = 16
  | .float16 => type.physical = .fixedLenByteArray && type.length = 2

def admitsConverted (type : ColumnType) : ConvertedType → Bool
  | .utf8 | .bson | .json | .enum => type.physical = .byteArray
  | .decimal => type.isDecimal
  | .date | .timeMillis | .uint8 | .uint16 | .uint32 | .int8 | .int16 | .int32 =>
    type.physical = .int32
  | .timeMicros | .timestampMillis | .timestampMicros | .uint64 | .int64 =>
    type.physical = .int64
  | .interval => type.physical = .fixedLenByteArray && type.length = 12
  | .map | .mapKeyValue | .list => false

/-- Whether two annotations say the same. -/
def agree (logical : LogicalType) (converted : Option ConvertedType) : Bool :=
  converted.isNone || logical.converted? = converted

/-- Whether the parts of the type fit together. -/
def isValid (type : ColumnType) : Bool :=
  (type.physical ≠ .fixedLenByteArray || 0 ≤ type.length) &&
  type.logical.all (fun logical => agree logical type.converted && type.admitsLogical logical) &&
  type.converted.all type.admitsConverted

end ColumnType

end ExportKit.Parquet
