import ExportKit.FileSystem.Access
import ExportKit.Table.DataFile
import ExportKit.Warehouse.Failure

/-!
Finding the data files of a table: the files `data/<directory>/<name>.parquet`, exactly one
directory below `data`. Entries whose name begins with a full stop or is not UTF-8 are passed over.
-/
namespace ExportKit.Warehouse

open Table (DataFile)

/-- What a table has in the way of data files. -/
inductive Scan where
  | missingTableDir
  | missingDataDir
  | noFiles
  /-- The files in byte order of their directory and then their name. There is at least one. -/
  | files (files : List DataFile)
  deriving DecidableEq

namespace Scan

def dataDirName : String := "data"

def suffix : List Char := ".parquet".toList

/-- The text of a name that is not hidden. -/
def visible? (name : Name) : Option String :=
  match Utf8.decode? name with
  | some chars => if chars.head? = some '.' then none else some (String.ofList chars)
  | none => none

/-- Whether an entry of a partition directory is to be looked at. -/
def isCandidate (name : Name) : Bool :=
  (visible? name).any fun text => suffix.isSuffixOf text.toList

/-- The data file with a given name in a partition directory, if it is a regular file. -/
def dataFile? (fs : FileSystem) (dir : Path) (dirName : String) (name : Name) :
    Except Failure (Option DataFile) := do
  let path := dir.join ⟨name⟩
  match ← Failure.ofOperation path (fs.status path) with
  | .file content =>
    .ok (some { path, size := UInt64.ofNat content.length, partitionDir := dirName, stats := none })
  | _ => .ok none

/-- The data files in an entry of the data directory. -/
def partitionFiles (fs : FileSystem) (dataDir : Path) (name : Name) :
    Except Failure (List DataFile) := do
  let dir := dataDir.join ⟨name⟩
  match visible? name with
  | some dirName =>
    if fs.isDir dir then
      let names ← Failure.ofOperation dir (fs.listDir dir)
      let files ← (names.filter isCandidate).mapM (dataFile? fs dir dirName)
      .ok (files.filterMap id)
    else .ok []
  | none => .ok []

def dataFiles (fs : FileSystem) (dataDir : Path) : Except Failure (List DataFile) := do
  let names ← Failure.ofOperation dataDir (fs.listDir dataDir)
  let files ← names.mapM (partitionFiles fs dataDir)
  .ok files.flatten

def ofTable (fs : FileSystem) (tableDir : Path) : Except Failure Scan := do
  let dataDir := tableDir.child dataDirName
  if !fs.isDir tableDir then .ok .missingTableDir
  else if !fs.isDir dataDir then .ok .missingDataDir
  else
    match ← dataFiles fs dataDir with
    | [] => .ok .noFiles
    | file :: rest => .ok (.files (file :: rest))

end Scan

end ExportKit.Warehouse
