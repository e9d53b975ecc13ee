import ExportKit.Json.Printer
import ExportKit.Path

/-!
What a run did with each table, as a document and as the closing summary for a reader.
-/
namespace ExportKit.Warehouse

/-- What became of a table. -/
inductive TableStatus where
  | written
  | missingTableDir
  | missingDataDir
  | noFiles
  /-- There are files, and none of them has a readable footer. -/
  | noReadableFiles
  deriving DecidableEq

namespace TableStatus

def all : List TableStatus :=
  [.written, .missingTableDir, .missingDataDir, .noFiles, .noReadableFiles]

def word : TableStatus → String
  | .written => "written"
  | .missingTableDir => "missing_table_dir"
  | .missingDataDir => "missing_data_dir"
  | .noFiles => "no_files"
  | .noReadableFiles => "no_readable_files"

def describe : TableStatus → String
  | .written => "metadata written"
  | .missingTableDir => "directory does not exist"
  | .missingDataDir => "no data directory found"
  | .noFiles => "no Parquet files found"
  | .noReadableFiles => "no readable Parquet files"

end TableStatus

/-- The files that were written for a table. -/
structure WrittenFiles where
  metadata : Path
  pointer : Path
  versionHint : Path
  manifest : Path
  manifestList : Path
  deriving DecidableEq

/-- What a run did with a table. -/
structure TableOutcome where
  table : String
  status : TableStatus
  /-- The files that were found. -/
  discoveredFiles : Nat
  /-- Those of them without a readable footer. -/
  unreadableFiles : Nat
  manifestEntries : Nat
  addedRecords : UInt64
  addedFilesSize : UInt64
  written : Option WrittenFiles
  deriving DecidableEq

/-- What a run did. -/
structure Report where
  schemaVersion : String
  generatedAt : String
  warehouse : Path
  catalog : String
  namespaceName : String
  partitionSize : UInt64
  inspectParquet : Bool
  tables : List TableOutcome
  deriving DecidableEq

/-- The document of a path, which has to be UTF-8. -/
def pathJson? (path : Path) : Option Json := path.text?.map .string

namespace WrittenFiles

def toJson? (files : WrittenFiles) : Option Json := do
  some (.object
    [("metadata", ← pathJson? files.metadata),
      ("pointer", ← pathJson? files.pointer),
      ("version_hint", ← pathJson? files.versionHint),
      ("manifest", ← pathJson? files.manifest),
      ("manifest_list", ← pathJson? files.manifestList)])

end WrittenFiles

namespace TableOutcome

/-- The outcome of a table that was passed over; none of its files was read. -/
def skipped (table : String) (status : TableStatus) (discoveredFiles : Nat) : TableOutcome where
  table
  status
  discoveredFiles
  unreadableFiles := discoveredFiles
  manifestEntries := 0
  addedRecords := 0
  addedFilesSize := 0
  written := none

/-- The document of an outcome. Files are left out if none were written. -/
def toJson? (outcome : TableOutcome) : Option Json := do
  let written ← outcome.written.mapM WrittenFiles.toJson?
  some (.object
    ([("table", .string outcome.table),
      ("status", .string outcome.status.word),
      ("discovered_files", .int outcome.discoveredFiles),
      ("unreadable_files", .int outcome.unreadableFiles),
      ("manifest_entries", .int outcome.manifestEntries),
      ("added_records", .int outcome.addedRecords.toNat),
      ("added_files_size", .int outcome.addedFilesSize.toNat)] ++
      (written.map fun files => ("written", files)).toList))

def summaryLine (outcome : TableOutcome) : String :=
  let count (n : Nat) : String := String.ofList (Digits.write n)
  if outcome.status = .written then
    outcome.table ++ ": " ++ outcome.status.describe ++ " (" ++
      count (outcome.discoveredFiles - outcome.unreadableFiles) ++ " files, " ++
      count outcome.manifestEntries ++ " manifest entries)"
  else outcome.table ++ ": skipped, " ++ outcome.status.describe

end TableOutcome

namespace Report

/-- The version of the layout of the document. -/
def currentSchemaVersion : String := "1.0.0"

def tablesWritten (report : Report) : Nat :=
  (report.tables.filter fun outcome => outcome.status = .written).length

/-- The outcome of the first table with a given name. -/
def table? (report : Report) (name : String) : Option TableOutcome :=
  report.tables.find? fun outcome => outcome.table = name

def toJson? (report : Report) : Option Json := do
  some (.object
    [("schema_version", .string report.schemaVersion),
      ("generated_at", .string report.generatedAt),
      ("warehouse", ← pathJson? report.warehouse),
      ("catalog", .string report.catalog),
      ("namespace", .string report.namespaceName),
      ("partition_size", .int report.partitionSize.toNat),
      ("inspect_parquet", .bool report.inspectParquet),
      ("tables", .array (← report.tables.mapM TableOutcome.toJson?))])

def closingLines (report : Report) (absoluteWarehouse : Path) : List String :=
  let warehouse := report.warehouse.display
  ["",
    "Iceberg metadata generation complete!",
    "Tables are now queryable at: " ++ absoluteWarehouse.display,
    "",
    "Note: This generates JSON-formatted Iceberg metadata.",
    "Standard Iceberg uses Avro format for manifest files.",
    "For full Iceberg compatibility with all tools, use a",
    "Java or Python Iceberg library to generate Avro manifests.",
    "",
    "To query these tables with DuckDB:",
    "  duckdb",
    "  INSTALL iceberg;",
    "  LOAD iceberg;",
    "  SELECT * FROM iceberg_scan('" ++ warehouse ++ "/blocks/metadata/metadata.json');",
    "",
    "To query with Apache Spark:",
    "  spark.sql.catalog." ++ report.catalog ++ "=org.apache.iceberg.spark.SparkCatalog",
    "  spark.sql.catalog." ++ report.catalog ++ ".type=hadoop",
    "  spark.sql.catalog." ++ report.catalog ++ ".warehouse=" ++ warehouse,
    "  spark.table(\"" ++ report.catalog ++ "." ++ report.namespaceName ++ ".blocks\").show()"]

/-- The summary: a line about each table, and how to query the tables. -/
def summary (report : Report) (absoluteWarehouse : Path) : String :=
  String.join ((report.tables.map TableOutcome.summaryLine ++
    report.closingLines absoluteWarehouse).map (· ++ "\n"))

end Report

end ExportKit.Warehouse
