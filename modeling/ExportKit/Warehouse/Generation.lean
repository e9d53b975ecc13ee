import ExportKit.Table.Inspection
import ExportKit.Warehouse.Scan
import ExportKit.Warehouse.Writing

/-!
A run over a warehouse: for each table the data files are found, those without a readable footer
are dropped if footers are to be inspected, and documents about the others are written. Tables
without data files are passed over. A table that was written stays if a later one fails.
-/
namespace ExportKit.Warehouse

open Table (BucketWidth DataFile Documents FileStats Kind Stamp)

/-- What a run is to do. -/
structure Configuration where
  warehouse : Path
  /-- Shown in hints about queries. -/
  catalog : String
  /-- Shown in hints about queries. -/
  namespaceName : String
  partitionSize : BucketWidth
  /-- Whether the footers of data files are read. -/
  inspectParquet : Bool
  deriving DecidableEq

namespace Configuration

/-- The configuration that a run has unless told otherwise. -/
def standard : Configuration where
  warehouse := .ofString "data/local/warehouse"
  catalog := "ar-io-catalog"
  namespaceName := "default"
  partitionSize := ⟨1000, by decide⟩
  inspectParquet := false

instance : Inhabited Configuration := ⟨standard⟩

/-- The path of the warehouse from the root, without `.` and `..`. Where there is no working
directory, a relative path stays relative. -/
def absoluteWarehouse (config : Configuration) (workingDir : Option Path) : Path :=
  (Path.absolute workingDir config.warehouse).normalize

def tableDir (config : Configuration) (kind : Kind) : Path := config.warehouse.child kind.name

end Configuration

/-- The statistics in the footer of a file. -/
def readFooter (fs : FileSystem) (schema : Table.Schema) (path : Path) :
    Except Failure FileStats := do
  match ← Failure.ofOperation path (fs.status path) with
  | .file content =>
    match FileStats.ofContent? schema content with
    | some stats => .ok stats
    | none => .error (.unreadableFooter path)
  | .device device =>
    let _ ← Failure.ofOperation path device.content
    .error (.unreadableFooter path)
  | _ => .error (.unreadableFooter path)

/-- A file with the statistics in its footer, if that can be read. -/
def inspectFile? (fs : FileSystem) (kind : Kind) (file : DataFile) : Option DataFile :=
  match readFooter fs kind.schema file.path with
  | .ok stats => some { file with stats := some stats }
  | .error _ => none

def keptFiles (config : Configuration) (fs : FileSystem) (kind : Kind) (files : List DataFile) :
    List DataFile :=
  if config.inspectParquet then files.filterMap (inspectFile? fs kind) else files

def documentsFor (config : Configuration) (fs : FileSystem) (kind : Kind) (files : List DataFile)
    (stamp : Stamp) : Documents :=
  .ofFiles kind files config.warehouse (config.absoluteWarehouse fs.workingPath?)
    config.partitionSize stamp

/-- The outcome for a table whose documents were written. -/
def writtenOutcome (kind : Kind) (discovered : Nat) (files : List DataFile)
    (documents : Documents) (written : WrittenFiles) : TableOutcome :=
  let summary := documents.metadata.currentSnapshot?.map (·.summary)
  { table := kind.name
    status := .written
    discoveredFiles := discovered
    unreadableFiles := discovered - files.length
    manifestEntries := documents.manifest.entries.length
    addedRecords := (summary.map (·.addedRecords)).getD 0
    addedFilesSize := (summary.map (·.addedFilesSize)).getD (DataFile.totalSize files)
    written := some written }

/-- Writes documents about the data files of a table. -/
def generateFrom (config : Configuration) (kind : Kind) (stamp : Stamp)
    (discovered : List DataFile) : Activity TableOutcome := do
  let fs ← get
  match keptFiles config fs kind discovered with
  | [] => return .skipped kind.name .noReadableFiles discovered.length
  | file :: rest =>
    let files := file :: rest
    let documents := documentsFor config fs kind files stamp
    let written ← writeDocuments (config.tableDir kind) documents
    return writtenOutcome kind discovered.length files documents written

/-- Finds the data files of a table and writes documents about them. -/
def generateTable (config : Configuration) (kind : Kind) (stamp : Stamp) :
    Activity TableOutcome := do
  match ← Scan.ofTable (← get) (config.tableDir kind) with
  | .missingTableDir => return .skipped kind.name .missingTableDir 0
  | .missingDataDir => return .skipped kind.name .missingDataDir 0
  | .noFiles => return .skipped kind.name .noFiles 0
  | .files discovered => generateFrom config kind stamp discovered

def Configuration.report (config : Configuration) (generatedAt : String)
    (tables : List TableOutcome) : Report where
  schemaVersion := Report.currentSchemaVersion
  generatedAt
  warehouse := config.warehouse
  catalog := config.catalog
  namespaceName := config.namespaceName
  partitionSize := config.partitionSize.val
  inspectParquet := config.inspectParquet
  tables

/-- Runs over all tables, each with its stamp. -/
def generate (config : Configuration) (stamps : Kind → Stamp) (generatedAt : String) :
    Activity Report := do
  if !(← get).isDir config.warehouse then throw (.warehouseNotFound config.warehouse)
  let tables ← Kind.all.mapM fun kind => generateTable config kind (stamps kind)
  return config.report generatedAt tables

end ExportKit.Warehouse
