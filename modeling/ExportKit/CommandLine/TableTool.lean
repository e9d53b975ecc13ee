import ExportKit.CommandLine.Outcome
import ExportKit.Warehouse.Generation

/-!
The program that generates metadata for the tables of a warehouse, and prints what it did.
-/
namespace ExportKit.CommandLine.TableTool

open Table (Kind Stamp)
open Warehouse (Activity Configuration Failure Report TableOutcome WrittenFiles)

def program : Program :=
  ⟨"ario-iceberg", "0.1.0", "Generate Apache Iceberg metadata for AR.IO Parquet exports"⟩

/-- How the program prints what it did. -/
inductive Format where
  | text
  | json
  deriving DecidableEq

/-- What the program is to do. -/
structure Job where
  config : Configuration
  format : Format
  log : LogSettings
  deriving DecidableEq

def command : Command where
  parameters :=
    [⟨"warehouse-dir", none, "WAREHOUSE_DIR", some "ICEBERG_WAREHOUSE_DIR", .path, false⟩,
      ⟨"catalog-name", none, "CATALOG_NAME", some "ICEBERG_CATALOG_NAME", .text, false⟩,
      ⟨"namespace", none, "NAMESPACE", some "ICEBERG_NAMESPACE", .text, false⟩,
      ⟨"partition-size", none, "PARTITION_SIZE", some "ICEBERG_PARTITION_SIZE", .positive, false⟩,
      ⟨"inspect-parquet", none, "INSPECT_PARQUET", some "ICEBERG_INSPECT_PARQUET", .switch, false⟩,
      ⟨"format", none, "FORMAT", none, .word formatWords, false⟩,
      logFormat,
      verbose]
  hasVersion := true
  subcommands := []

/-- The configuration that settings describe, the standard one where they say nothing. -/
def configuration (settings : Settings) : Configuration where
  warehouse := (settings.path? "warehouse-dir").getD Configuration.standard.warehouse
  catalog := (settings.text? "catalog-name").getD Configuration.standard.catalog
  namespaceName := (settings.text? "namespace").getD Configuration.standard.namespaceName
  partitionSize := (settings.positive? "partition-size").getD Configuration.standard.partitionSize
  inspectParquet := settings.isOn "inspect-parquet"

def job (arguments : List (List UInt8)) (environment : Environment) : Except Stop Job := do
  let (progress, _) ← command.readArguments .start arguments
  let settings ← command.complete environment progress
  return {
    config := configuration settings
    format := if settings.word? "format" = some "json" then .json else .text
    log := .ofSettings settings environment }

def exitCodeOf : Failure → ExitCode
  | .warehouseNotFound _ => .configuration
  | .io _ _ => .output
  | .unreadableFooter _ => .input
  | .pathNotText => .internal

def printout (job : Job) (workingDir : Option Path) (report : Report) : Except Failure String :=
  match job.format with
  | .json =>
    match report.toJson? with
    | some document => .ok document.pretty
    | none => .error .pathNotText
  | .text => .ok (report.summary (job.config.absoluteWarehouse workingDir))

def pathEvent (level : Level) (message : String) (paths : List (String × Path)) : Event :=
  ⟨level, message, paths.map fun (name, path) => (name, .text path.display)⟩

/-- What is logged about the files that were written for a table. -/
def writingEvents (files : WrittenFiles) : List Event :=
  let wrote (path : Path) : Event := pathEvent .debug "wrote document" [("path", path)]
  [wrote files.metadata,
    pathEvent .info "created metadata" [("path", files.metadata)],
    wrote files.manifest,
    wrote files.manifestList,
    pathEvent .info "created manifest and manifest list"
      [("manifest", files.manifest), ("manifest_list", files.manifestList)]]

/-- What is logged about a table, its single data files apart. -/
def tableEvents (config : Configuration) (outcome : TableOutcome) : List Event :=
  let table : String × EventValue := ("table", .text outcome.table)
  let files : String × EventValue := ("files", .number outcome.discoveredFiles)
  let scanned : Event :=
    ⟨.debug, "scanned data directory",
      [("table_dir", .text (config.warehouse.child outcome.table).display), files]⟩
  let skipped (level : Level) : Event :=
    ⟨level, "skipping table: " ++ outcome.status.describe, [table]⟩
  let found : Event := ⟨.info, "found Parquet files", [table, files]⟩
  match outcome.status with
  | .missingTableDir | .missingDataDir => [skipped .info]
  | .noFiles => [scanned, skipped .info]
  | .noReadableFiles => [scanned, found, skipped .warn]
  | .written => scanned :: found :: (outcome.written.map writingEvents).getD []

def events (config : Configuration) (report : Report) : List Event :=
  ⟨.info, "generating Iceberg metadata",
    [("warehouse", .text config.warehouse.display), ("catalog", .text config.catalog),
      ("namespace", .text config.namespaceName),
      ("partition_size", .number config.partitionSize.val.toNat)]⟩ ::
  (report.tables.flatMap (tableEvents config) ++
    [⟨.info, "generation finished",
      [("tables_written", .number report.tablesWritten),
        ("tables", .number report.tables.length)]⟩])

/-- Generates the metadata and says what was done. -/
def activity (job : Job) (stamps : Kind → Stamp) (generatedAt : String) :
    Activity (String × List Event) := do
  let report ← Warehouse.generate job.config stamps generatedAt
  return ((← printout job (← get).workingPath? report) ++ "\n", events job.config report)

/-- Does a job. Each table gets its stamp. -/
def run (job : Job) (stamps : Kind → Stamp) (generatedAt : String) (fs : FileSystem) :
    FileSystem × Outcome :=
  match activity job stamps generatedAt fs with
  | (.ok (printed, events), changed) => (changed, .success printed events)
  | (.error failure, changed) => (changed, .failure (exitCodeOf failure) failure.message [])

def execute (arguments : List (List UInt8)) (environment : Environment) (stamps : Kind → Stamp)
    (generatedAt : String) (fs : FileSystem) : FileSystem × Outcome :=
  match job arguments environment with
  | .ok job =>
    let (changed, outcome) := run job stamps generatedAt fs
    outcome.conclude job.log changed
  | .error stop => (fs, stop.outcome program environment.wantsColor)

end ExportKit.CommandLine.TableTool
