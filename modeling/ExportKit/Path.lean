import ExportKit.Text.Utf8

/-!
Paths as the operating system takes them: any bytes, separated by slashes. The components of a
path leave out repeated and trailing slashes and every `.` that does not begin the path, and all
else about paths but their resolution in a file system is a function of the components.
-/
namespace ExportKit

/-- The name of a file within its directory, as bytes. -/
abbrev Name := List UInt8

def Name.ofString (text : String) : Name := Utf8.encode text.toList

/-- The text of a name, if it is UTF-8. -/
def Name.text? (name : Name) : Option String := (Utf8.decode? name).map String.ofList

/-- A path, as bytes. -/
structure Path where
  bytes : List UInt8
  deriving DecidableEq, Inhabited

/-- One step of a path. -/
inductive Component where
  /-- The slash that an absolute path begins with. -/
  | root
  /-- The `.` that a relative path begins with. -/
  | here
  /-- The parent directory, `..`. -/
  | up
  | name (name : Name)
  deriving DecidableEq

namespace Path

def slash : UInt8 := 47

def dot : UInt8 := 46

def ofString (text : String) : Path := ⟨Utf8.encode text.toList⟩

def text? (path : Path) : Option String := (Utf8.decode? path.bytes).map String.ofList

/-- The text that shows a path, with replacement characters for what is not UTF-8. -/
def display (path : Path) : String := String.ofList (Utf8.decodeLossy path.bytes)

def isAbsolute (path : Path) : Bool := path.bytes.head? == some slash

def endsInSlash (path : Path) : Bool := path.bytes.getLast? == some slash

/-- What stands between the slashes of a path, empty stretches apart. -/
def segments (path : Path) : List Name := (path.bytes.splitOn slash).filter (· ≠ [])

/-- The component that a segment is, if it is one wherever it stands. -/
def componentOf? (segment : Name) : Option Component :=
  if segment = [dot] then none
  else if segment = [dot, dot] then some .up
  else some (.name segment)

def components (path : Path) : List Component :=
  let start : List Component :=
    if path.isAbsolute then [.root]
    else if path.segments.head? = some [dot] then [.here]
    else []
  start ++ path.segments.filterMap componentOf?

def componentBytes : Component → List UInt8
  | .root => [slash]
  | .here => [dot]
  | .up => [dot, dot]
  | .name name => name

/-- The shortest path with given components. -/
def ofComponents : List Component → Path
  | .root :: rest => ⟨slash :: [slash].intercalate (rest.map componentBytes)⟩
  | components => ⟨[slash].intercalate (components.map componentBytes)⟩

/-- A path followed by another, which stands alone if it is absolute. -/
def join (path next : Path) : Path :=
  if next.isAbsolute then next
  else if path.bytes = [] ∨ path.endsInSlash then ⟨path.bytes ++ next.bytes⟩
  else ⟨path.bytes ++ slash :: next.bytes⟩

def child (path : Path) (name : String) : Path := path.join (ofString name)

/-- The last component, if it is a name. -/
def fileName? (path : Path) : Option Name :=
  match path.components.getLast? with
  | some (.name name) => some name
  | _ => none

/-- The path without its last component. The root and the empty path have no parent. -/
def parent? (path : Path) : Option Path :=
  match path.components.getLast? with
  | none | some .root => none
  | some _ => some (ofComponents path.components.dropLast)

/-- The components of a path below another one. -/
def below? (path base : Path) : Option (List Component) :=
  base.components.isPrefixOf? path.components

/-- The path from the root that leads where `path` leads from `workingDir`, with its `..`
components kept. The empty path leads nowhere and stays as it is, and so does a relative path where
there is no working directory. -/
def absolute (workingDir : Option Path) (path : Path) : Path :=
  if path.bytes = [] then path
  else if path.isAbsolute then ofComponents path.components
  else
    match workingDir with
    | some dir => ofComponents (dir.components ++ path.components.filter (· ≠ .here))
    | none => path

/-- Takes a component into account on a path whose components are listed from the last one. -/
def normalizeStep (reversed : List Component) : Component → List Component
  | .here => reversed
  | .up =>
    match reversed with
    | .name _ :: rest => rest
    | _ => reversed
  | component => component :: reversed

/-- The path without `.` and with each `..` taken against the component before it; at the root
a `..` stays there. -/
def normalize (path : Path) : Path :=
  ofComponents (path.components.foldl normalizeStep []).reverse

end Path

end ExportKit
