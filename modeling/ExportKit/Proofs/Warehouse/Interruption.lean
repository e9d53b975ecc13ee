import ExportKit.Proofs.FileSystem.Changes
import ExportKit.Proofs.Warehouse.Completeness

/-!
What is left when the documents of a table cannot all be written. They are written in steps, each of
which replaces at most one entry, and there is no way back: what the steps before the failure wrote
stays, and everything else is as it was. A write that is refused leaves its file alone. One that
fails on the way, as it may where there is no space left, is looked at as well: it leaves its file
with a part of the text, and nothing else. Main statement: `writeDocuments_of_error`.
-/
namespace ExportKit.Warehouse

open FileSystem
open Table (Documents)
open Table.Documents (directoryName fileText pointerFileName versionFileName versionHint)

variable {fs fs' after middle : FileSystem} {failure : Failure}

/-- A step of writing documents, on the path that it is about. -/
inductive WriteStep where
  /-- Creates the directory of the documents. -/
  | directory (path : Path)
  | file (path : Path) (text : String)
  /-- Removes what has the name of the pointer. -/
  | clearing (path : Path)
  | pointer (path : Path)

namespace WriteStep

def path : WriteStep → Path
  | .directory path => path
  | .file path _ => path
  | .clearing path => path
  | .pointer path => path

def run : WriteStep → Activity Unit
  | .directory path => Activity.makeDirAll path
  | .file path text => Activity.putFile path text
  | .clearing path => do
    if ((← get).linkStatus path).isOk then Activity.change path fun fs => fs.removeFile path
  | .pointer path => Activity.change path fun fs => fs.makeLink (.ofString versionFileName) path

/-- The location where a step replaces what is there. Creating a directory replaces nothing. -/
def target? (fs : FileSystem) : WriteStep → Option Location
  | .directory _ => none
  | .file path _ => (fs.resolve .create path).toOption.map (·.location)
  | .clearing path => (fs.resolve .name path).toOption.map (·.location)
  | .pointer path => (fs.resolve .name path).toOption.map (·.location)

/-- Carries out some steps up to the first that fails. -/
def runAll : List WriteStep → Activity Unit
  | [] => return ()
  | step :: rest => do
    step.run
    runAll rest

/-- The locations where some steps replace what is there, each in the state that it comes to. -/
def targets (fs : FileSystem) : List WriteStep → List Location
  | [] => []
  | step :: rest => (step.target? fs).toList ++ targets (step.run fs).2 rest

/-- A write among some steps fails on the way: the steps before it have been carried out, and what it
writes to holds a first part of the text, which may be empty. -/
inductive Tears (steps : List WriteStep) (fs : FileSystem) :
    List WriteStep → WriteStep → FileSystem → Prop where
  | intro {done rest : List WriteStep} {path : Path} {text : String} {part : List UInt8}
      {middle after : FileSystem} (steps_eq : steps = done ++ .file path text :: rest)
      (before : runAll done fs = (.ok (), middle)) (first : part <+: Utf8.encode text.toList)
      (last : middle.putFile path part = .ok after) : Tears steps fs done (.file path text) after

end WriteStep

open WriteStep (Tears runAll targets)

def writeSteps (tableDir : Path) (documents : Documents) : List WriteStep :=
  let files := WrittenFiles.ofTable tableDir documents
  [.directory (tableDir.child directoryName),
    .file files.metadata (fileText documents.metadata.toJson),
    .clearing files.pointer,
    .pointer files.pointer,
    .file files.versionHint versionHint,
    .file files.manifest (fileText documents.manifest.toJson),
    .file files.manifestList (fileText documents.manifestList.toJson)]

/-- The pointer is made in two steps: what has its name is removed, and then the link is made. -/
theorem writePointer_eq (pointer : Path) :
    writePointer pointer = (do
      WriteStep.run (.clearing pointer)
      WriteStep.run (.pointer pointer)) := by
  simp only [writePointer, WriteStep.run, bind_assoc]
  congr
  funext fs
  split
  next => rfl
  next => rw [pure_bind]

/-- Writing documents is a list of steps. -/
theorem writeDocuments_eq_runAll (tableDir : Path) (documents : Documents) :
    writeDocuments tableDir documents = (do
      runAll (writeSteps tableDir documents)
      return WrittenFiles.ofTable tableDir documents) := by
  simp only [writeDocuments, writePointer_eq, runAll, writeSteps, WriteStep.run, bind_assoc,
    pure_bind]

/-! Single steps. -/

/-- Creating the directory of the documents replaces nothing, whatever comes of it. -/
theorem extends_of_directory {path : Path} {result : Except Failure Unit}
    (h : WriteStep.run (.directory path) fs = (result, fs')) : Extends [] fs fs' := by
  rw [WriteStep.run, Activity.makeDirAll_apply] at h
  obtain ⟨-, rfl⟩ := Prod.mk.inj h
  exact extends_of_makeDirAll rfl

/-- What differs at the location that a path leads to differs at the target of a step. -/
theorem extends_of_resolve {ending : Ending} {path : Path} {spot : Spot}
    (hResolve : fs.resolve ending path = .ok spot) (hAlters : Alters spot.location fs fs') :
    Extends ((fs.resolve ending path).toOption.map (·.location)).toList fs fs' := by
  rw [hResolve]
  exact hAlters.extends

/-- Whatever is written to a file, nothing is replaced but what is at the target. -/
theorem extends_of_putFile {path : Path} {content : List UInt8} (text : String)
    (h : fs.putFile path content = .ok fs') :
    Extends ((WriteStep.file path text).target? fs).toList fs fs' := by
  obtain ⟨spot, hResolve, hAlters, -⟩ := putFile_eq_ok h
  exact extends_of_resolve hResolve hAlters

/-- A step that is carried out replaces nothing but what is at its target. -/
theorem extends_of_run_ok {step : WriteStep} (h : step.run fs = (.ok (), fs')) :
    Extends (step.target? fs).toList fs fs' := by
  cases step with
  | directory path => exact extends_of_directory h
  | file path text =>
      rw [WriteStep.run, Activity.putFile] at h
      exact extends_of_putFile text (Activity.change_eq_ok h)
  | clearing path =>
      rw [WriteStep.run, Activity.get_bind_apply] at h
      split at h
      next =>
        obtain ⟨spot, hResolve, hAlters, -⟩ := removeFile_eq_ok (Activity.change_eq_ok h)
        exact extends_of_resolve hResolve hAlters
      next =>
        cases h
        exact .refl _ fs
  | pointer path =>
      rw [WriteStep.run] at h
      obtain ⟨spot, hResolve, hAlters, -⟩ := makeLink_eq_ok (Activity.change_eq_ok h)
      exact extends_of_resolve hResolve hAlters

/-- A step that fails changes nothing, unless it was to create directories, and it says which path
it is about. -/
theorem eq_of_run_error {step : WriteStep} (hStep : ∀ path, step ≠ .directory path)
    (h : step.run fs = (.error failure, fs')) :
    fs' = fs ∧ ∃ fault, failure = .io step.path fault := by
  cases step with
  | directory path => exact absurd rfl (hStep path)
  | file path text =>
      rw [WriteStep.run, Activity.putFile] at h
      exact Activity.change_eq_error h
  | clearing path =>
      rw [WriteStep.run, Activity.get_bind_apply] at h
      split at h
      next => exact Activity.change_eq_error h
      next => cases h
  | pointer path =>
      rw [WriteStep.run] at h
      exact Activity.change_eq_error h

/-- A step that fails replaces nothing, and names the path that it is about. -/
theorem extends_of_run_error {step : WriteStep} (h : step.run fs = (.error failure, fs')) :
    Extends [] fs fs' ∧ ∃ fault, failure = .io step.path fault := by
  cases step with
  | directory path =>
      refine ⟨extends_of_directory h, ?_⟩
      rw [WriteStep.run, Activity.makeDirAll_apply] at h
      cases hResult : (fs.makeDirAll path).2 with
      | ok value =>
          rw [hResult] at h
          cases h
      | error fault =>
          rw [hResult] at h
          exact ⟨fault, (Except.error.inj (Prod.mk.inj h).1).symm⟩
  | file | clearing | pointer =>
      obtain ⟨rfl, hFault⟩ := eq_of_run_error (by simp) h
      exact ⟨.refl [] _, hFault⟩

/-! Several steps. -/

/-- Steps that are all carried out touch nothing but what they replace. -/
theorem extends_of_runAll_ok {steps : List WriteStep} (h : runAll steps fs = (.ok (), after)) :
    Extends (targets fs steps) fs after := by
  induction steps generalizing fs with
  | nil =>
      cases h
      exact .refl [] _
  | cons step rest ih =>
      obtain ⟨⟨⟩, middle, hStep, hRest⟩ := Activity.bind_eq_ok h
      rw [targets, hStep]
      exact (extends_of_run_ok hStep).trans (ih hRest)

/-- Steps that fail are carried out up to one that does. -/
theorem exists_failing_step {steps : List WriteStep}
    (h : runAll steps fs = (.error failure, after)) :
    ∃ done step rest middle, steps = done ++ step :: rest ∧ runAll done fs = (.ok (), middle) ∧
      step.run middle = (.error failure, after) := by
  induction steps generalizing fs with
  | nil => cases h
  | cons first others ih =>
      rcases Activity.bind_eq_error h with hFirst | ⟨⟨⟩, next, hFirst, hOthers⟩
      · exact ⟨[], first, others, fs, rfl, rfl, hFirst⟩
      · obtain ⟨done, step, rest, middle, rfl, hDone, hStep⟩ := ih hOthers
        refine ⟨first :: done, step, rest, middle, rfl, ?_, hStep⟩
        exact (Activity.bind_of_ok hFirst).trans hDone

/-- The targets of steps are those of the first ones and then those of the others. -/
theorem targets_append {done others : List WriteStep} (h : runAll done fs = (.ok (), middle)) :
    targets fs (done ++ others) = targets fs done ++ targets middle others := by
  induction done generalizing fs with
  | nil =>
      cases h
      rfl
  | cons step rest ih =>
      obtain ⟨⟨⟩, next, hStep, hRest⟩ := Activity.bind_eq_ok h
      rw [List.cons_append, targets, targets, hStep, ih hRest, List.append_assoc]

/-- If the documents of a table cannot be written, a step is refused, which the failure names by its
path, after those before it have been carried out. -/
theorem writeDocuments_eq_error {tableDir : Path} {documents : Documents}
    (h : writeDocuments tableDir documents fs = (.error failure, after)) :
    ∃ done step rest middle fault, writeSteps tableDir documents = done ++ step :: rest ∧
      runAll done fs = (.ok (), middle) ∧ step.run middle = (.error failure, after) ∧
      failure = .io step.path fault ∧ Extends (targets fs done) fs after := by
  rw [writeDocuments_eq_runAll] at h
  have hSteps : runAll (writeSteps tableDir documents) fs = (.error failure, after) := by
    rcases Activity.bind_eq_error h with hSteps | ⟨_, _, _, hReturn⟩
    · exact hSteps
    · cases hReturn
  obtain ⟨done, step, rest, middle, hSplit, hDone, hStep⟩ := exists_failing_step hSteps
  obtain ⟨hFailing, fault, hFault⟩ := extends_of_run_error hStep
  refine ⟨done, step, rest, middle, fault, hSplit, hDone, hStep, hFault, ?_⟩
  rw [← List.append_nil (targets fs done)]
  exact (extends_of_runAll_ok hDone).trans hFailing

/-- Nothing is replaced before the metadata. -/
theorem targets_eq_nil {tableDir : Path} {documents : Documents} {done rest : List WriteStep}
    {step : WriteStep} (hSplit : writeSteps tableDir documents = done ++ step :: rest)
    (hLength : done.length ≤ 1) : targets fs done = [] := by
  cases done with
  | nil => rfl
  | cons first others =>
      obtain rfl : others = [] :=
        List.length_eq_zero_iff.mp (Nat.le_zero.mp (Nat.le_of_succ_le_succ hLength))
      obtain ⟨rfl, -⟩ := List.cons.inj hSplit
      rfl

/-- A write that fails on the way replaces what is at its own target, and nothing else. -/
theorem WriteStep.Tears.extends {steps done : List WriteStep} {step : WriteStep}
    (h : Tears steps fs done step after) : Extends (targets fs (done ++ [step])) fs after := by
  obtain ⟨-, hDone, -, hLast⟩ := h
  rw [targets_append hDone, targets, targets, List.append_nil]
  exact (extends_of_runAll_ok hDone).trans (extends_of_putFile _ hLast)

/-- Writing the documents of a table fails at a step that is refused, which the failure names by its
path. The steps before it have been carried out, and those after it have not. Nothing differs
outside of the targets of those that were, except for new directories. So if the directory cannot be
created, or the metadata not be written, nothing that was there changes, and a table that was
complete still is. All this takes a write to be one step, which is refused only because of names, of
kinds of entries and of lengths. Where a write fails on the way instead, its own target may differ
as well, and nothing else. -/
theorem writeDocuments_of_error (tableDir : Path) (documents : Documents) (fs : FileSystem) :
    (∀ failure after, writeDocuments tableDir documents fs = (.error failure, after) →
      ∃ done step rest middle fault, writeSteps tableDir documents = done ++ step :: rest ∧
        runAll done fs = (.ok (), middle) ∧ step.run middle = (.error failure, after) ∧
        failure = .io step.path fault ∧ Extends (targets fs done) fs after ∧
        (done.length ≤ 1 →
          Extends [] fs after ∧ ∀ dir, IsComplete fs dir → IsComplete after dir)) ∧
    ∀ done step after, Tears (writeSteps tableDir documents) fs done step after →
      Extends (targets fs (done ++ [step])) fs after := by
  refine ⟨fun failure after h => ?_, fun done step after hTears => hTears.extends⟩
  obtain ⟨done, step, rest, middle, fault, hSplit, hDone, hStep, hFault, hExtends⟩ :=
    writeDocuments_eq_error h
  refine ⟨done, step, rest, middle, fault, hSplit, hDone, hStep, hFault, hExtends, ?_⟩
  intro hEarly
  rw [targets_eq_nil hSplit hEarly] at hExtends
  refine ⟨hExtends, fun dir hComplete => hComplete.mono fun location entry _ hEntry => ?_⟩
  exact hExtends.entry List.not_mem_nil hEntry

/-! Tables whose documents cannot be written. -/

/-- A directory is not replaced by the pointer. -/
theorem writePointer_of_blocked {path : Path} {links : Nat} {dir : Location}
    (hReaches : Reaches fs path links dir) (hDir : fs.entryAt? dir = some .dir)
    (hAccepts : Accepts (path.child pointerFileName))
    (hBlocked : fs.entryAt? (dir ++ [Name.ofString pointerFileName]) = some .dir) :
    writePointer (path.child pointerFileName) fs =
      (.error (.io (path.child pointerFileName) .isDirectory), fs) := by
  have hProper := Table.fits_pointerFileName.proper
  have hLength : (Name.ofString pointerFileName).length ≤ maxName :=
    Nat.le_trans Table.fits_pointerFileName.length_le (by decide)
  have hFound : (fs.linkStatus (path.child pointerFileName)).isOk :=
    (isOk_linkStatus hReaches hDir hProper hLength hAccepts).mpr (by simp [hBlocked])
  have hRefused := removeFile_dir hReaches hDir hProper hLength hAccepts hBlocked
  rw [writePointer, Activity.get_bind_apply, if_pos hFound]
  exact Activity.bind_of_error (Activity.change_of_error hRefused)

/-- Where the directory of the documents is there, it is left alone and reached. -/
theorem makeDirAll_documents {tableDir : Path} {links : Nat} {table : Location}
    (hReaches : Reaches fs tableDir links table) (hDir : fs.entryAt? table = some .dir)
    (hDocuments : fs.entryAt? (table ++ [Name.ofString directoryName]) = some .dir)
    (hAccepts : Accepts (tableDir.child directoryName)) :
    Activity.makeDirAll (tableDir.child directoryName) fs = (.ok (), fs) ∧
      Reaches fs (tableDir.child directoryName) links (table ++ [Name.ofString directoryName]) := by
  have hDirectory := Table.fits_directoryName
  have hLength : (Name.ofString directoryName).length ≤ maxName :=
    Nat.le_trans hDirectory.length_le (by decide)
  have hMake := makeDirAll_dir hReaches hDir hDirectory.proper hLength hAccepts hDocuments
  exact ⟨Activity.makeDirAll_of_ok hMake,
    hReaches.join hDirectory.proper hLength hDocuments (by simp)⟩

/-- Where a directory stands in place of the pointer, the metadata is replaced before that is
found out. -/
theorem writeDocuments_of_blocked {tableDir : Path} {links : Nat} {table : Location}
    {old : List UInt8} (documents : Documents) (hReaches : Reaches fs tableDir links table)
    (hDir : fs.entryAt? table = some .dir)
    (hDocuments : fs.entryAt? (table ++ [Name.ofString directoryName]) = some .dir)
    (hMetadata : fs.entryAt? (table ++ [Name.ofString directoryName] ++
      [Name.ofString versionFileName]) = some (.file old))
    (hBlocked : fs.entryAt? (table ++ [Name.ofString directoryName] ++
      [Name.ofString pointerFileName]) = some .dir)
    (hZero : 0 ∉ tableDir.bytes) (hLength : tableDir.bytes.length + 60 ≤ maxPath) :
    ∃ failure after, writeDocuments tableDir documents fs = (.error failure, after) ∧
      after.entryAt? (table ++ [Name.ofString directoryName] ++ [Name.ofString versionFileName]) =
        some (.file (Utf8.encode (fileText documents.metadata.toJson).toList)) := by
  have hDirectory := Table.fits_directoryName
  have hVersion := Table.fits_versionFileName
  have hPointer := Table.fits_pointerFileName
  have hDirAccepts : Accepts (tableDir.child directoryName) :=
    accepts_join hZero hDirectory (by omega)
  have hDirLength : (tableDir.child directoryName).bytes.length ≤ tableDir.bytes.length + 8 + 1 :=
    length_join_le hDirectory tableDir
  have hVersionAccepts : Accepts ((tableDir.child directoryName).child versionFileName) :=
    accepts_join hDirAccepts.not_mem_zero hVersion (by omega)
  have hPointerAccepts : Accepts ((tableDir.child directoryName).child pointerFileName) :=
    accepts_join hDirAccepts.not_mem_zero hPointer (by omega)
  obtain ⟨hMakeDir, hInside⟩ := makeDirAll_documents hReaches hDir hDocuments hDirAccepts
  obtain ⟨replaced, hPutRun, hPuts⟩ := exists_puts_file hInside hDocuments
    (hVersion.mono (show 16 ≤ maxName by decide)) hVersionAccepts
    (fun found hFound => ⟨old, Option.some_inj.mp (hFound.symm.trans hMetadata)⟩)
    (fileText documents.metadata.toJson)
  obtain ⟨hStillInside, hIsDir⟩ := hPuts.keepsPaths _ _ _ hInside hDocuments
  have hStill := (hPuts.changesOnly.entry_of_ne
    Table.versionFileName_ne_pointerFileName.symm).trans hBlocked
  have hPointerRun := writePointer_of_blocked hStillInside hIsDir hPointerAccepts hStill
  refine ⟨.io ((tableDir.child directoryName).child pointerFileName) .isDirectory, replaced, ?_,
    hPuts.entry_eq⟩
  rw [writeDocuments, Activity.bind_of_ok hMakeDir]
  refine (Activity.bind_of_ok hPutRun).trans ?_
  exact Activity.bind_of_error hPointerRun

/-- A table in the working directory in which a directory stands where the pointer is to be made,
beside metadata that is an empty file. -/
def blockedTree : FileSystem where
  rootEntries :=
    [(Name.ofString directoryName,
      .dir [(Name.ofString versionFileName, .file []), (Name.ofString pointerFileName, .dir [])])]
  workingDir := .existing []
  output := []

/-- The directory in the place of the pointer makes the run fail once the metadata are written. -/
theorem writeDocuments_blockedTree (documents : Documents) : ∃ failure after,
    writeDocuments (hereConfiguration 0).warehouse documents blockedTree =
      (.error failure, after) ∧
    after.entryAt? [Name.ofString directoryName, Name.ofString versionFileName] =
      some (.file (Utf8.encode (fileText documents.metadata.toJson).toList)) :=
  writeDocuments_of_blocked documents (reaches_here rfl 0) rfl rfl rfl rfl (by decide) (by decide)

/-- A write of the metadata there may fail on the way, and leave any first part of the text. -/
theorem tears_blockedTree (documents : Documents) {part : List UInt8}
    (hPart : part <+: Utf8.encode (fileText documents.metadata.toJson).toList) :
    ∃ done step after,
      Tears (writeSteps (hereConfiguration 0).warehouse documents) blockedTree done step after ∧
        after.entryAt? [Name.ofString directoryName, Name.ofString versionFileName] =
          some (.file part) := by
  have hVersion := Table.fits_versionFileName
  have hHere : Reaches blockedTree (hereConfiguration 0).warehouse maxLinks [] := reaches_here rfl 0
  obtain ⟨hMakeDir, hInside⟩ :=
    makeDirAll_documents hHere rfl rfl ⟨by decide, by decide, by decide⟩
  have hPut := putFile_entry hInside rfl hVersion.proper
    (Nat.le_trans hVersion.length_le (by decide)) ⟨by decide, by decide, by decide⟩
    (fun found hFound => ⟨[], (Option.some_inj.mp hFound).symm⟩) part
  have hDone : runAll [.directory ((hereConfiguration 0).warehouse.child directoryName)]
      blockedTree = (.ok (), blockedTree) := Activity.bind_of_ok hMakeDir
  have hDir : blockedTree.entryAt? [Name.ofString directoryName] = some .dir := rfl
  exact ⟨_, _, _, .intro rfl hDone hPart hPut, entryAt?_put_self hDir _ (.file part)⟩

/-- The step that is refused there is found, and outside of the targets of those before it nothing
differs. Nor does anything but the metadata if the write of that fails on the way, and leaves the
first byte. -/
theorem failing_step_of_blockedTree : ∃ documents failure after done step rest middle fault,
    writeDocuments (hereConfiguration 0).warehouse documents blockedTree =
      (.error failure, after) ∧
    writeSteps (hereConfiguration 0).warehouse documents = done ++ step :: rest ∧
    runAll done blockedTree = (.ok (), middle) ∧ step.run middle = (.error failure, after) ∧
    failure = .io step.path fault ∧ Extends (targets blockedTree done) blockedTree after ∧
    ∃ done step torn,
      Tears (writeSteps (hereConfiguration 0).warehouse documents) blockedTree done step torn ∧
      torn.entryAt? [Name.ofString directoryName, Name.ofString versionFileName] =
        some (.file ((Utf8.encode (fileText documents.metadata.toJson).toList).take 1)) ∧
      Extends (targets blockedTree (done ++ [step])) blockedTree torn := by
  let documents := documentsFor (hereConfiguration 0) blockedTree .blocks [] ⟨0, default, default⟩
  obtain ⟨failure, after, hRun, -⟩ := writeDocuments_blockedTree documents
  obtain ⟨hRefused, hTorn⟩ :=
    writeDocuments_of_error (hereConfiguration 0).warehouse documents blockedTree
  obtain ⟨done, step, rest, middle, fault, hSteps, hDone, hStep, hFailure, hExtends, -⟩ :=
    hRefused _ _ hRun
  obtain ⟨before, last, torn, hTears, hLeft⟩ :=
    tears_blockedTree documents (List.take_prefix 1 _)
  exact ⟨_, failure, after, done, step, rest, middle, fault, hRun, hSteps, hDone, hStep, hFailure,
    hExtends, before, last, torn, hTears, hLeft, hTorn _ _ _ hTears⟩

/-- So not everything below the directory of the documents stays as it was if they cannot be
written. -/
theorem not_keeps_of_blockedTree : ¬∀ (fs after : FileSystem) (tableDir : Path) (links : Nat)
    (table : Location) (documents : Documents) (failure : Failure),
    Reaches fs tableDir links table →
      writeDocuments tableDir documents fs = (.error failure, after) →
        ∀ location content, table ++ [Name.ofString directoryName] <+: location →
          fs.entryAt? location = some (.file content) →
            after.entryAt? location = some (.file content) := by
  intro hAll
  obtain ⟨failure, after, hRun, hContent⟩ := writeDocuments_blockedTree
    (documentsFor (hereConfiguration 0) blockedTree .blocks [] ⟨0, default, default⟩)
  have hKept := hAll blockedTree after _ maxLinks [] _ failure (reaches_here rfl 0) hRun
    [Name.ofString directoryName, Name.ofString versionFileName] []
    (List.prefix_append [Name.ofString directoryName] [Name.ofString versionFileName]) rfl
  rw [hContent] at hKept
  simp [fileText] at hKept

end ExportKit.Warehouse
