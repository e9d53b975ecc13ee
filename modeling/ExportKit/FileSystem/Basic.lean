import ExportKit.Path

/-!
File systems as values: a tree of directories, files, symbolic links and devices below a root
directory, and a working directory. Every value is a possible state; where a directory lists a name
twice, the first entry counts and the others cannot be seen, nor can an entry whose name no path
can spell.
-/
namespace ExportKit

/-- What stands behind a name that is neither a file nor a directory but can be read or written. -/
inductive Device where
  /-- Is always empty, and forgets what is written. -/
  | null
  /-- Is always empty, and has no space for anything. -/
  | full
  /-- The standard output: what is written is shown there, and there is nothing to read. -/
  | output
  /-- A terminal that is not there. -/
  | terminal
  deriving DecidableEq, Repr

/-- A file, a symbolic link, a directory or a device. -/
inductive Node where
  | file (content : List UInt8)
  | link (target : Path)
  | dir (entries : List (Name × Node))
  | device (kind : Device)
  deriving Inhabited

/-- The names that lead from the root to an entry. -/
abbrev Location := List Name

/-- What an entry is, apart from the entries that a directory holds. -/
inductive Entry where
  | file (content : List UInt8)
  | link (target : Path)
  | dir
  | device (kind : Device)
  deriving DecidableEq

/-- The longest name that a directory holds, in bytes. -/
def maxName : Nat := 255

def Name.isValid (name : Name) : Bool :=
  name ≠ [] && name.length ≤ maxName && !name.contains 0 && !name.contains Path.slash &&
    name ≠ [Path.dot] && name ≠ [Path.dot, Path.dot]

namespace Node

/-- The entries of a directory; nothing else has any. -/
def entries : Node → List (Name × Node)
  | .dir entries => entries
  | _ => []

def isDir : Node → Bool
  | .dir _ => true
  | _ => false

/-- What a node is, apart from the entries that it holds. -/
def entry : Node → Entry
  | .file content => .file content
  | .link target => .link target
  | .dir _ => .dir
  | .device kind => .device kind

def child? (node : Node) (name : Name) : Option Node := node.entries.lookup name

/-- The node at a location below this one. -/
def at? (node : Node) : Location → Option Node
  | [] => some node
  | name :: rest => (node.child? name).bind (·.at? rest)

/-- Entries with `name` set to `node`: in its place if it is there, and otherwise at the end. -/
def setEntry (name : Name) (node : Node) : List (Name × Node) → List (Name × Node)
  | [] => [(name, node)]
  | entry :: rest =>
    if entry.1 = name then (name, node) :: rest else entry :: setEntry name node rest

/-- A directory with its entry `name` set to `child`; all else stays as it is. -/
def setChild (node : Node) (name : Name) (child : Node) : Node :=
  match node with
  | .dir entries => .dir (setEntry name child entries)
  | node => node

/-- A directory without its entry `name`; all else stays as it is. -/
def eraseChild (node : Node) (name : Name) : Node :=
  match node with
  | .dir entries => .dir (entries.filter fun entry => entry.1 ≠ name)
  | node => node

/-- A directory without entries; all else stays as it is. -/
def emptied : Node → Node
  | .dir _ => .dir []
  | node => node

/-- The tree with the node at a location below this one changed, if there is one. -/
def modifyAt (node : Node) (change : Node → Node) : Location → Node
  | [] => change node
  | name :: rest =>
    match node.child? name with
    | some child => node.setChild name (child.modifyAt change rest)
    | none => node

/-- The names in a directory, in byte order. -/
def names (node : Node) : List Name :=
  (((node.entries.map (·.1)).filter Name.isValid).eraseDups).mergeSort fun a b =>
    (compare a b).isLE

end Node

/-- The directory where relative paths start. -/
inductive WorkingDir where
  /-- The directory at a location. -/
  | existing (location : Location)
  /-- A directory that was removed. It is empty and takes no entries, and two dots still lead to
  the directory that it was in. What gets its name later is another directory. -/
  | removed (parent : Location)
  deriving DecidableEq, Inhabited

/-- The working directory once the directory at a location is removed. -/
def WorkingDir.without (dir : WorkingDir) (location : Location) : WorkingDir :=
  match dir with
  | .existing here => if location.isPrefixOf here then .removed here.dropLast else dir
  | .removed _ => dir

/-- A file system: the entries of its root directory, a working directory, and what was written to
the standard output. -/
structure FileSystem where
  rootEntries : List (Name × Node)
  workingDir : WorkingDir
  output : List UInt8
  deriving Inhabited

namespace FileSystem

def root (fs : FileSystem) : Node := .dir fs.rootEntries

def at? (fs : FileSystem) (location : Location) : Option Node := fs.root.at? location

/-- What stands at a location, apart from the entries that a directory holds. Two file systems that
agree in this hold the same files, links, directories and devices. -/
def entryAt? (fs : FileSystem) (location : Location) : Option Entry :=
  (fs.at? location).map Node.entry

/-- The file system with the node at a location changed. The root stays a directory. -/
def modifyAt (fs : FileSystem) (change : Node → Node) (location : Location) : FileSystem :=
  { fs with rootEntries := (fs.root.modifyAt change location).entries }

/-- The file system with a node put at a location whose directory exists. -/
def put (fs : FileSystem) (location : Location) (node : Node) : FileSystem :=
  match location.getLast? with
  | some name => fs.modifyAt (·.setChild name node) location.dropLast
  | none => fs

/-- The file system without the node at a location. The root cannot be removed. -/
def erase (fs : FileSystem) (location : Location) : FileSystem :=
  match location.getLast? with
  | some name => fs.modifyAt (·.eraseChild name) location.dropLast
  | none => fs

/-- The file system without the directory at a location and all that it holds. -/
def eraseDir (fs : FileSystem) (location : Location) : FileSystem :=
  { fs.erase location with workingDir := fs.workingDir.without location }

/-- The file system without what the directory at a location holds. -/
def clear (fs : FileSystem) (location : Location) : FileSystem :=
  let changed := fs.modifyAt .emptied location
  if fs.workingDir = .existing location then changed
  else { changed with workingDir := fs.workingDir.without location }

/-- The working directory as a path, unless it was removed. -/
def workingPath? (fs : FileSystem) : Option Path :=
  match fs.workingDir with
  | .existing location => some (Path.ofComponents (.root :: location.map .name))
  | .removed _ => none

end FileSystem

/-- Why the operating system refuses an operation on a path. -/
inductive Fault where
  | notFound
  | noDevice
  | busy
  | alreadyExists
  | notDirectory
  | isDirectory
  | invalidArgument
  | noSpace
  | nameTooLong
  | notEmpty
  | tooManyLinks
  | zeroByte
  deriving DecidableEq, Repr

namespace Fault

def message : Fault → String
  | .notFound => "No such file or directory (os error 2)"
  | .noDevice => "No such device or address (os error 6)"
  | .busy => "Device or resource busy (os error 16)"
  | .alreadyExists => "File exists (os error 17)"
  | .notDirectory => "Not a directory (os error 20)"
  | .isDirectory => "Is a directory (os error 21)"
  | .invalidArgument => "Invalid argument (os error 22)"
  | .noSpace => "No space left on device (os error 28)"
  | .nameTooLong => "File name too long (os error 36)"
  | .notEmpty => "Directory not empty (os error 39)"
  | .tooManyLinks => "Too many levels of symbolic links (os error 40)"
  | .zeroByte => "file name contained an unexpected NUL byte"

end Fault

namespace Device

def content : Device → Except Fault (List UInt8)
  | .null | .full | .output => .ok []
  | .terminal => .error .noDevice

def put (device : Device) (fs : FileSystem) (content : List UInt8) : Except Fault FileSystem :=
  match device with
  | .null => .ok fs
  | .full => if content = [] then .ok fs else .error .noSpace
  | .output => .ok { fs with output := fs.output ++ content }
  | .terminal => .error .noDevice

end Device

end ExportKit
