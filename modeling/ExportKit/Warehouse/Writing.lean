import ExportKit.FileSystem.Access
import ExportKit.Table.Documents
import ExportKit.Warehouse.Failure
import ExportKit.Warehouse.Report

/-!
Writing the documents of a table into its metadata directory. The files are written one after the
other; if one of them cannot be written, those before it stay.
-/
namespace ExportKit.Warehouse

open Table (Documents)

/-- An activity that may change a file system, and that may fail after it did some of its work. -/
abbrev Activity := ExceptT Failure (StateM FileSystem)

namespace Activity

/-- An operation on a path that changes the file system in one step, or leaves it alone if it is
refused. -/
def change (path : Path) (operation : FileSystem → Except Fault FileSystem) : Activity Unit :=
  fun fs =>
    match operation fs with
    | .ok changed => (.ok (), changed)
    | .error fault => (.error (.io path fault), fs)

def makeDirAll (path : Path) : Activity Unit := fun fs =>
  match fs.makeDirAll path with
  | (fs, result) => (Failure.ofOperation path result, fs)

/-- Writes a file in one step, replacing one that is there. It is refused only because of names,
kinds of entries and lengths. -/
def putFile (path : Path) (text : String) : Activity Unit :=
  change path fun fs => fs.putFile path (Utf8.encode text.toList)

end Activity

/-- Creates the link to the file of the metadata, in place of anything that has its name. -/
def writePointer (pointer : Path) : Activity Unit := do
  if ((← get).linkStatus pointer).isOk then
    Activity.change pointer fun fs => fs.removeFile pointer
  Activity.change pointer fun fs => fs.makeLink (.ofString Documents.versionFileName) pointer

/-- The files that hold the documents of a table whose directory is given. -/
def WrittenFiles.ofTable (tableDir : Path) (documents : Documents) : WrittenFiles :=
  let dir := tableDir.child Documents.directoryName
  { metadata := dir.child Documents.versionFileName
    pointer := dir.child Documents.pointerFileName
    versionHint := dir.child Documents.versionHintFileName
    manifest := dir.child documents.manifestFileName
    manifestList := dir.child documents.manifestListFileName }

/-- Writes the documents of a table whose directory is given. -/
def writeDocuments (tableDir : Path) (documents : Documents) : Activity WrittenFiles := do
  let files := WrittenFiles.ofTable tableDir documents
  Activity.makeDirAll (tableDir.child Documents.directoryName)
  Activity.putFile files.metadata (Documents.fileText documents.metadata.toJson)
  writePointer files.pointer
  Activity.putFile files.versionHint Documents.versionHint
  Activity.putFile files.manifest (Documents.fileText documents.manifest.toJson)
  Activity.putFile files.manifestList (Documents.fileText documents.manifestList.toJson)
  return files

end ExportKit.Warehouse
