import ExportKit.Parquet.Annotation

/-!
The schema of a Parquet file. It is stored as the list of its elements, each group followed by what
it holds, and describes a tree with one root, whose leaves are the columns of the file.
-/
namespace ExportKit.Parquet

open Thrift (Value Shape)
open Thrift.Shape (required optional)

/-- A column of a file, or a group of columns. -/
inductive SchemaTree where
  | column (name : String)
  | group (name : String) (members : List SchemaTree)

namespace SchemaTree

def elementShape : Shape :=
  .record
    [optional 1 (.int 32), -- physical type
      optional 2 (.int 32), -- length of a value
      optional 3 (.int 32), -- repetition
      required 4 .text, -- name
      optional 5 (.int 32), -- number of members
      optional 6 (.int 32), -- converted type
      optional 7 (.int 32), -- scale
      optional 8 (.int 32), -- precision
      optional 9 (.int 32), -- id
      optional 10 LogicalType.shape] -- logical type

/-- The number of members of an element. Columns may state none, or zero. -/
def memberCount (element : Value) : Nat := ((element.int? 5).getD 0).toNat

/-- Whether an element holds other elements or could. -/
def isGroup (element : Value) : Bool := ((element.int? 5).getD 0) ≠ 0

/-- Whether an element says how often it occurs: once, at most once, or any number of times. -/
def hasRepetition (element : Value) : Bool := (element.int? 3).any fun code => 0 ≤ code && code ≤ 2

/-- The type of the column that an element describes, without its annotations. -/
def columnType (element : Value) (physical : PhysicalType) (converted : Option ConvertedType) :
    ColumnType where
  physical
  length := (element.int? 2).getD (-1)
  scale := (element.int? 7).getD (-1)
  precision := (element.int? 8).getD (-1)
  converted
  logical := (element.field? 10).bind LogicalType.ofValue?

/-- The converted type of an element, if it states one; the outer option says whether the code is
known. -/
def convertedType? (element : Value) : Option (Option ConvertedType) :=
  match element.int? 6 with
  | none => some none
  | some code => (ConvertedType.ofCode? code).map some

/-- The tree that an element is the root of. An element without members and without a physical
type is a group. -/
def ofElement? (isRoot : Bool) (element : Value) (members : List SchemaTree) :
    Option SchemaTree := do
  let name ← element.text? 4
  let converted ← convertedType? element
  if isGroup element then
    if hasRepetition element ∨ isRoot ∧ (element.int? 3).isNone then some (.group name members)
    else none
  else if !hasRepetition element then none
  else
    match element.int? 1 with
    | none => some (.group name [])
    | some code =>
      let physical ← PhysicalType.ofCode? code
      if (columnType element physical converted).isValid then some (.column name) else none

/-- Reads `count` trees off the front of some elements. The fuel is at least the number of
elements. -/
def read (isRoot : Bool) : Nat → Nat → List Value → Option (List SchemaTree × List Value)
  | _, 0, elements => some ([], elements)
  | 0, _ + 1, _ => none
  | _ + 1, _ + 1, [] => none
  | fuel + 1, count + 1, element :: rest => do
    let (members, rest) ← read false fuel (memberCount element) rest
    let tree ← ofElement? isRoot element members
    let (others, rest) ← read isRoot fuel count rest
    some (tree :: others, rest)

/-- The schema that a list of elements describes. Its root is a group. -/
def ofElements? (elements : List Value) : Option SchemaTree :=
  match read true elements.length 1 elements with
  | some ([.group name members], []) => some (.group name members)
  | _ => none

mutual

/-- The columns of a tree, each as the names that lead to it. -/
def paths : SchemaTree → List (List String)
  | .column name => [[name]]
  | .group name members => (membersPaths members).map (name :: ·)

def membersPaths : List SchemaTree → List (List String)
  | [] => []
  | member :: rest => paths member ++ membersPaths rest

end

/-- The columns of a schema, each as the names that lead to it from the root. -/
def columnPaths : SchemaTree → List (List String)
  | .column name => [[name]]
  | .group _ members => membersPaths members

end SchemaTree

end ExportKit.Parquet
