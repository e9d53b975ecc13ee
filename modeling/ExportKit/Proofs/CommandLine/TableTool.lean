import ExportKit.CommandLine.TableTool
import ExportKit.Proofs.Warehouse.Report

/-!
How the program that generates metadata ends. Its exit code tells whether the warehouse is there,
whether the operating system refused something for one of the tables, and whether the report can be
printed. Main statement: `ends_of_execute`.
-/
namespace ExportKit

namespace Warehouse

open Table (Kind Stamp)

variable {fs middle after : FileSystem} {config : Configuration} {kind : Kind} {before : List Kind}
  {stamps : Kind → Stamp} {outcomes : List TableOutcome} {failure : Failure}

/-- A run over all tables comes to one of them for which the operating system refuses an operation.
It did all that it had to do for those before. -/
def TableFails (config : Configuration) (stamps : Kind → Stamp) (fs : FileSystem) : Prop :=
  ∃ before kind rest outcomes middle path fault after,
    [Kind.blocks, .transactions, .tags] = before ++ kind :: rest ∧
      generateTables config stamps before fs = (.ok outcomes, middle) ∧
      generateTable config kind (stamps kind) middle = (.error (.io path fault), after)

/-- A table that fails in its turn ends the run, whatever tables are left. -/
theorem generateTables_of_failing_turn (rest : List Kind)
    (hBefore : generateTables config stamps before fs = (.ok outcomes, middle))
    (hTurn : generateTable config kind (stamps kind) middle = (.error failure, after)) :
    generateTables config stamps (before ++ kind :: rest) fs = (.error failure, after) := by
  induction before generalizing fs outcomes with
  | nil =>
      cases hBefore
      rw [List.nil_append, generateTables_cons, hTurn]
  | cons first before ih =>
      rw [generateTables_cons] at hBefore
      split at hBefore
      next outcome state hFirst =>
        split at hBefore
        next others last hOthers =>
          cases hBefore
          rw [List.cons_append, generateTables_cons, hFirst]
          simp only [ih hOthers]
        next => cases hBefore
      next => cases hBefore

/-- A run over all tables that fails was refused something. -/
theorem tableFails_of_generateTables
    (h : generateTables config stamps Kind.all fs = (.error failure, after)) :
    TableFails config stamps fs ∧ ∃ path fault, failure = .io path fault := by
  obtain ⟨before, kind, rest, outcomes, middle, hKinds, hBefore, hTurn⟩ := exists_failing_turn h
  obtain ⟨path, fault, rfl⟩ := failsByRefusal_generateTable config kind (stamps kind) middle
    failure (by rw [hTurn])
  exact ⟨⟨before, kind, rest, outcomes, middle, path, fault, after, hKinds, hBefore, hTurn⟩,
    path, fault, rfl⟩

/-- A run that comes to its end meets no table that fails. -/
theorem not_tableFails_of_generateTables
    (h : generateTables config stamps Kind.all fs = (.ok outcomes, after)) :
    ¬TableFails config stamps fs := by
  rintro ⟨before, kind, rest, others, middle, path, fault, last, hKinds, hBefore, hTurn⟩
  have hFails := generateTables_of_failing_turn rest hBefore hTurn
  rw [← hKinds] at hFails
  cases h.symm.trans hFails

/-- A run fails only for want of a warehouse, or because the operating system refuses something. -/
theorem failure_of_generate {generatedAt : String}
    (h : generate config stamps generatedAt fs = (.error failure, after)) :
    failure = .warehouseNotFound config.warehouse ∨ ∃ path fault, failure = .io path fault := by
  rw [generate_apply] at h
  split at h
  next =>
    cases hRun : generateTables config stamps Kind.all fs with
    | mk result last =>
      rw [hRun] at h
      cases result with
      | ok outcomes => cases h
      | error other =>
          cases h
          exact .inr (tableFails_of_generateTables hRun).2
  next =>
    cases h
    exact .inl rfl

end Warehouse

namespace CommandLine.TableTool

open FileSystem
open Table (Kind Stamp)
open Warehouse

variable {fs after : FileSystem} {arguments : List (List UInt8)} {environment : Environment}
  {stamps : Kind → Stamp} {generatedAt : String} {report : Report} {failure : Failure} {job : Job}

/-- What a run of the program leaves behind. -/
structure Ends (job : Job) (stamps : Kind → Stamp) (generatedAt : String) (fs changed : FileSystem)
    (outcome : Outcome) : Prop where
  missing : outcome.exitCode.toNat = 10 ↔ ¬fs.isDir job.config.warehouse
  refused : outcome.exitCode.toNat = 13 ↔
    fs.isDir job.config.warehouse ∧ TableFails job.config stamps fs
  unprintable : outcome.exitCode.toNat = 99 ↔
    fs.isDir job.config.warehouse ∧ ¬TableFails job.config stamps fs ∧
      job.format = .json ∧ job.config.warehouse.text? = none
  clean : outcome.exitCode.toNat = 0 ↔
    fs.isDir job.config.warehouse ∧ ¬TableFails job.config stamps fs ∧
      ¬(job.format = .json ∧ job.config.warehouse.text? = none)
  not_input : outcome.exitCode.toNat ≠ 11
  /-- Neither a footer nor a document makes the work itself fail. -/
  failure : ∀ failure after, generate job.config stamps generatedAt fs = (.error failure, after) →
    failure = .warehouseNotFound job.config.warehouse ∨ ∃ path fault, failure = .io path fault
  /-- A report that cannot be printed is one about tables that were all written, as they are by the
  same job with a report in words. -/
  written : outcome.exitCode.toNat = 99 → ∃ outcomes after,
    generateTables job.config stamps [.blocks, .transactions, .tags] fs = (.ok outcomes, after) ∧
      changed = { after with output := [] } ∧
      ∃ printed, run { job with format := .text } stamps generatedAt fs =
        (after, .success printed (events job.config (job.config.report generatedAt outcomes)))

/-! Printing. -/

/-- A report with a path that is no text cannot be printed as a document. -/
theorem printout_of_unprintable (workingDir : Option Path) (hFormat : job.format = .json)
    (hReport : report.toJson? = none) :
    printout job workingDir report = .error .pathNotText := by
  rw [printout, hFormat]
  simp only [hReport]

theorem exists_printout (workingDir : Option Path)
    (h : ¬(job.format = .json ∧ report.toJson? = none)) :
    ∃ text, printout job workingDir report = .ok text := by
  rw [printout]
  cases hFormat : job.format with
  | text => exact ⟨_, rfl⟩
  | json =>
      cases hReport : report.toJson? with
      | none => exact absurd ⟨hFormat, hReport⟩ h
      | some document => exact ⟨_, rfl⟩

/-! Runs. -/

/-- After the generation, what remains is to print the report. -/
theorem activity_of_report (h : generate job.config stamps generatedAt fs = (.ok report, after)) :
    activity job stamps generatedAt fs =
      match printout job after.workingPath? report with
      | .ok text => (.ok (text ++ "\n", events job.config report), after)
      | .error failure => (.error failure, after) := by
  rw [activity, Activity.bind_of_ok h, Activity.get_bind_apply]
  cases printout job after.workingPath? report <;> rfl

/-- A failed generation ends the program with the code of the failure. -/
theorem run_of_failure (h : generate job.config stamps generatedAt fs = (.error failure, after)) :
    run job stamps generatedAt fs = (after, .failure (exitCodeOf failure) failure.message []) := by
  rw [run, activity, Activity.bind_of_error h]

/-- A report that cannot be printed ends the program as an internal error, after all was done. -/
theorem run_of_unprintable (h : generate job.config stamps generatedAt fs = (.ok report, after))
    (hFormat : job.format = .json) (hReport : report.toJson? = none) :
    run job stamps generatedAt fs =
      (after, .failure .internal (Failure.message .pathNotText) []) := by
  rw [run, activity_of_report h, printout_of_unprintable _ hFormat hReport]
  rfl

/-- In all other cases the program succeeds. -/
theorem run_of_printable (job : Job)
    (h : generate job.config stamps generatedAt fs = (.ok report, after))
    (hPrintable : ¬(job.format = .json ∧ report.toJson? = none)) :
    ∃ printed, run job stamps generatedAt fs =
      (after, .success printed (events job.config report)) := by
  obtain ⟨text, hText⟩ := exists_printout after.workingPath? hPrintable
  rw [run, activity_of_report h, hText]
  exact ⟨_, rfl⟩

/-- Where the warehouse is a directory, the result is that of the run over all tables. -/
theorem generate_of_generateTables {result : Except Failure (List TableOutcome)}
    (generatedAt : String) (hDir : fs.isDir job.config.warehouse)
    (h : generateTables job.config stamps Kind.all fs = (result, after)) :
    generate job.config stamps generatedAt fs =
      (result.map (job.config.report generatedAt), after) := by
  rw [generate_apply, if_pos hDir, h]
  cases result <;> rfl

/-- The exit code of a run in terms of what it met. -/
theorem exitCode_run (job : Job) (stamps : Kind → Stamp) (generatedAt : String) (fs : FileSystem)
    [Decidable (TableFails job.config stamps fs)] :
    (run job stamps generatedAt fs).2.exitCode =
      if ¬fs.isDir job.config.warehouse then .configuration
      else if TableFails job.config stamps fs then .output
      else if job.format = .json ∧ job.config.warehouse.text? = none then .internal
      else .clean := by
  by_cases hDir : fs.isDir job.config.warehouse
  · rw [if_neg (not_not_intro hDir)]
    cases hRun : generateTables job.config stamps Kind.all fs with
    | mk result after =>
      have hGenerate := generate_of_generateTables generatedAt hDir hRun
      cases result with
      | error failure =>
          obtain ⟨hFails, path, fault, rfl⟩ := tableFails_of_generateTables hRun
          rw [if_pos hFails, run_of_failure hGenerate]
          rfl
      | ok outcomes =>
          have hReport := toJson?_report_eq_none_iff generatedAt hRun
          rw [if_neg (not_tableFails_of_generateTables hRun)]
          split
          next hUnprintable =>
            rw [run_of_unprintable hGenerate hUnprintable.1 (hReport.mpr hUnprintable.2)]
            rfl
          next hPrintable =>
            obtain ⟨printed, hPrinted⟩ := run_of_printable job hGenerate fun hNone =>
              hPrintable ⟨hNone.1, hReport.mp hNone.2⟩
            rw [hPrinted]
            rfl
  · have hGenerate : generate job.config stamps generatedAt fs =
        (.error (.warehouseNotFound job.config.warehouse), fs) := by
      rw [generate_apply, if_neg hDir]
    rw [if_pos hDir, run_of_failure hGenerate]
    rfl

/-- A run that does not fail for a table has done the same as the one with a report in words. -/
theorem exists_outcomes (generatedAt : String) (hDir : fs.isDir job.config.warehouse)
    (hTables : ¬TableFails job.config stamps fs) :
    ∃ outcomes after, generateTables job.config stamps Kind.all fs = (.ok outcomes, after) ∧
      (run job stamps generatedAt fs).1 = after ∧
      ∃ printed, run { job with format := .text } stamps generatedAt fs =
        (after, .success printed (events job.config (job.config.report generatedAt outcomes))) := by
  cases hRun : generateTables job.config stamps Kind.all fs with
  | mk result after =>
    cases result with
    | error failure => exact absurd (tableFails_of_generateTables hRun).1 hTables
    | ok outcomes =>
        have hGenerate := generate_of_generateTables generatedAt hDir hRun
        refine ⟨outcomes, after, rfl, ?_, ?_⟩
        · rw [run, activity_of_report hGenerate]
          cases printout job after.workingPath? _ <;> rfl
        · exact run_of_printable { job with format := .text } hGenerate (by simp)

/-- A run does its job, and the rest is a matter of the log and the standard output. -/
theorem execute_of_job (stamps : Kind → Stamp) (generatedAt : String) (fs : FileSystem)
    (h : TableTool.job arguments environment = .ok job) :
    (execute arguments environment stamps generatedAt fs).1 =
        { (run job stamps generatedAt fs).1 with output := [] } ∧
      (execute arguments environment stamps generatedAt fs).2.exitCode =
        (run job stamps generatedAt fs).2.exitCode := by
  rw [execute, h]
  exact ⟨rfl, rfl⟩

/-- The exit code of a run that accepts its arguments tells how far it got, whatever they are and
whatever the file system holds. -/
theorem ends_of_execute (stamps : Kind → Stamp) (generatedAt : String) (fs : FileSystem)
    (h : TableTool.job arguments environment = .ok job) :
    Ends job stamps generatedAt fs (execute arguments environment stamps generatedAt fs).1
      (execute arguments environment stamps generatedAt fs).2 := by
  classical
  obtain ⟨hChanged, hCode⟩ := execute_of_job stamps generatedAt fs h
  rw [exitCode_run] at hCode
  have hUnprintable : (execute arguments environment stamps generatedAt fs).2.exitCode.toNat = 99 ↔
      fs.isDir job.config.warehouse ∧ ¬TableFails job.config stamps fs ∧
        job.format = .json ∧ job.config.warehouse.text? = none := by
    rw [hCode]
    split_ifs <;> simp [*, ExitCode.toNat]
  constructor
  case missing | refused | clean | not_input =>
    rw [hCode]
    split_ifs <;> simp [*, ExitCode.toNat]
  case unprintable => exact hUnprintable
  case failure => exact fun _ _ => failure_of_generate
  case written =>
    intro hInternal
    obtain ⟨hDir, hTables, -, -⟩ := hUnprintable.mp hInternal
    obtain ⟨outcomes, after, hRun, hAfter, hPrinted⟩ := exists_outcomes generatedAt hDir hTables
    exact ⟨outcomes, after, hRun, by rw [hChanged, hAfter], hPrinted⟩

/-- Arguments for a warehouse whose name is not UTF-8. -/
def sampleArguments : List (List UInt8) :=
  [Utf8.encode "--warehouse-dir".toList, [255], Utf8.encode "--format".toList,
    Utf8.encode "json".toList]

def sampleJob : Job where
  config := { Configuration.standard with warehouse := ⟨[255]⟩ }
  format := .json
  log := .ofSettings [] []

/-- The file system with that warehouse, which has blocks with one data file. -/
def sampleTree : FileSystem where
  rootEntries := [([255], (singleFileTree "x").root)]
  workingDir := .existing []
  output := []

theorem reaches_sampleTree : Reaches sampleTree sampleJob.config.warehouse maxLinks [[255]] := by
  have hDir : sampleTree.entryAt? ([] ++ [[255]]) = some .dir := rfl
  refine ⟨[], [[255]], rfl, by simp [entryAt?, FileSystem.at?, Node.at?], ?_⟩
  exact .entry (by decide) (by decide) (by decide) hDir (fun _ hLink => by cases hLink) (.nil _ _)

/-- There are neither links nor documents in it. -/
theorem isUntouched_sampleTree : IsUntouched sampleTree [[255]] := by
  have hHere := isUntouched_singleFileTree "x"
  have hInside (below : Location) :
      sampleTree.entryAt? ([[255]] ++ below) = (singleFileTree "x").entryAt? below := rfl
  constructor
  · rintro _ target ⟨below, rfl⟩
    rw [hInside]
    exact hHere.no_link below target List.nil_prefix
  · exact fun kind => hHere.no_documents kind

theorem isServed_sampleTree : IsServed sampleJob.config sampleTree [[255]] :=
  ⟨isUntouched_sampleTree.isSound, fun _ _ hOther => (hOther.unique reaches_sampleTree).2⟩

theorem hasRoom_sampleJob : HasRoom sampleJob.config := by
  intro kind
  left
  cases kind <;> decide

theorem isDir_sampleTree : sampleTree.isDir sampleJob.config.warehouse :=
  reaches_sampleTree.isDir_of_accepts rfl ⟨by decide, by decide, by decide⟩

/-- The blocks of the sample warehouse have documents to be written. -/
theorem exists_documents_sampleTree (stamp : Stamp) : ∃ documents,
    documentsOf? sampleJob.config sampleTree .blocks stamp = some documents := by
  have hDirName : (Name.ofString "x").Fits 1 := Name.fits_ofString (by decide)
  have hFile : (Name.ofString "a.parquet").Fits 9 := Name.fits_ofString (by decide)
  have hRecorded : recordedFiles? sampleJob.config sampleTree .blocks = some _ :=
    recordedFiles?_single rfl reaches_sampleTree rfl rfl rfl (hDirName.mono (by decide)) (by decide)
      (hFile.mono (by decide)) ⟨by decide, by decide⟩ ⟨by decide, by decide, by decide⟩
  exact ⟨_, documentsOf?_of_recordedFiles? hRecorded stamp⟩

/-- A report on a warehouse whose name is not UTF-8 cannot be printed as JSON. The documents are
there nevertheless. -/
theorem ends_of_sample : ∃ documents,
    TableTool.job sampleArguments [] = .ok sampleJob ∧
      documentsOf? sampleJob.config sampleTree .blocks ⟨0, default, default⟩ = some documents ∧
      (execute sampleArguments [] (fun _ => ⟨0, default, default⟩) "" sampleTree).2.exitCode.toNat =
        99 ∧
      Holds (execute sampleArguments [] (fun _ => ⟨0, default, default⟩) "" sampleTree).1
        (documentsLocation [[255]] .blocks) documents := by
  have hJob : TableTool.job sampleArguments [] = .ok sampleJob := by decide +kernel
  have hEnds := ends_of_execute (fun _ => ⟨0, default, default⟩) "" sampleTree hJob
  have hOthers (kind : Kind) (hKind : kind ≠ .blocks) :
      sampleTree.entryAt? (tableLocation [[255]] kind) = none := by
    cases kind <;> first | rfl | exact absurd rfl hKind
  obtain ⟨documents, hDocuments⟩ := exists_documents_sampleTree ⟨0, default, default⟩
  obtain ⟨outcome, others, last, hGenerate, -, -, hWritten⟩ := generate_of_blocks
    (fun _ => ⟨0, default, default⟩) isServed_sampleTree hasRoom_sampleJob isDir_sampleTree
    hDocuments hOthers ""
  rcases generate_eq hGenerate with ⟨-, _, hFailure⟩ | ⟨-, tables, hTables, hReport⟩
  · cases hFailure
  obtain ⟨outcomes, rfl, -⟩ := eq_ok_of_map hReport.symm
  have hInternal := hEnds.unprintable.mpr ⟨isDir_sampleTree,
    not_tableFails_of_generateTables hTables, rfl, by decide +kernel⟩
  refine ⟨documents, hJob, hDocuments, hInternal, ?_⟩
  obtain ⟨_, after, hRun, hChanged, -⟩ := hEnds.written hInternal
  obtain ⟨-, rfl⟩ := Prod.mk.inj (hRun.symm.trans hTables)
  rw [hChanged]
  exact hWritten.holds

end CommandLine.TableTool

end ExportKit
