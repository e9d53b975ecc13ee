import ExportKit.Proofs.Warehouse.Partitions
import ExportKit.Proofs.Warehouse.Stopping

/-!
Entries of data directories that cannot be read. As long as the status of each can be had, a run
that inspects footers comes to the same as without them, apart from what it counts. Main statement:
`passesOver_of_generate`.
-/
namespace ExportKit.Warehouse

open FileSystem
open Table (Documents FileStats Kind Stamp)

variable {config : Configuration} {fs fs' after after' : FileSystem} {kind : Kind} {stamp : Stamp}
  {stamps : Kind → Stamp} {documents : Documents} {links links' : Nat} {warehouse : Location}

/-! Two file systems. -/

/-- Nothing differs but what stands below data directories. -/
structure DiffersInData (warehouse : Location) (fs fs' : FileSystem) : Prop where
  entry : ∀ location, ¬IsInData warehouse location →
    fs'.entryAt? location = fs.entryAt? location
  workingDir : fs'.workingDir = fs.workingDir

/-- Two file systems show a run the same readable files of a table, and neither stops it. -/
structure ReadsAlike (config : Configuration) (fs fs' : FileSystem) (kind : Kind) : Prop where
  isClear : IsClear config fs kind
  isClear' : IsClear config fs' kind
  readsSame : ReadsSame config fs fs' kind

namespace ReadsAlike

theorem recordedFiles?_eq (h : ReadsAlike config fs fs' kind) (hInspect : config.inspectParquet) :
    recordedFiles? config fs' kind = recordedFiles? config fs kind :=
  recordedFiles?_congr hInspect h.isClear h.isClear' h.readsSame

/-- The same readable files make the same documents in the same working directory. -/
theorem documentsOf?_eq (h : ReadsAlike config fs fs' kind) (hInspect : config.inspectParquet)
    (hWorkingDir : fs'.workingDir = fs.workingDir) (stamp : Stamp) :
    documentsOf? config fs' kind stamp = documentsOf? config fs kind stamp := by
  rw [documentsOf?, documentsOf?, h.recordedFiles?_eq hInspect]
  congr 1
  funext files
  exact documentsFor_congr (absoluteWarehouse_congr (.inr hWorkingDir)) files

end ReadsAlike

/-! Two runs over a table. -/

/-- An outcome without the numbers of files that were found and of those that cannot be read. A
table of which no file can be read counts as one without files. -/
def TableOutcome.uncounted (outcome : TableOutcome) : TableOutcome :=
  { outcome with
    status := if outcome.status = .noReadableFiles then .noFiles else outcome.status
    discoveredFiles := 0
    unreadableFiles := 0 }

/-- A report without these numbers. -/
def Report.uncounted (report : Report) : Report :=
  { report with tables := report.tables.map TableOutcome.uncounted }

/-- Outcomes for a table that are the same but for these numbers, and these are the same too if the
same files are found. -/
structure Resembles (config : Configuration) (fs fs' : FileSystem) (kind : Kind)
    (outcome outcome' : TableOutcome) : Prop where
  uncounted : outcome'.uncounted = outcome.uncounted
  same : FindsAlike config fs fs' kind → outcome' = outcome

/-- Two results that are the same failure, or are related. -/
inductive Corresponds {α : Type} (R : α → α → Prop) :
    Except Failure α → Except Failure α → Prop where
  | ok {a a' : α} (related : R a a') : Corresponds R (.ok a) (.ok a')
  | error (failure : Failure) : Corresponds R (.error failure) (.error failure)

/-- Without its counts, a table that is passed over is the same with any number of files. -/
theorem uncounted_skipped_passedStatus (config : Configuration) (fs : FileSystem) (kind : Kind)
    (count : Nat) :
    (TableOutcome.skipped kind.name (passedStatus config fs kind count) count).uncounted =
      .skipped kind.name (passedStatus config fs kind 0) 0 := by
  rw [TableOutcome.uncounted, passedStatus, passedStatus]
  cases fs.isDir (config.tableDir kind) with
  | false => rfl
  | true =>
      cases fs.isDir (config.dataDir kind) with
      | false => rfl
      | true => cases count <;> rfl

theorem uncounted_writtenOutcome (kind : Kind) (files : List Table.DataFile)
    (documents : Documents) (written : WrittenFiles) (discovered discovered' : Nat) :
    (writtenOutcome kind discovered' files documents written).uncounted =
      (writtenOutcome kind discovered files documents written).uncounted := rfl

section Table

variable (h : IsDepot config fs warehouse links) (h' : IsDepot config fs' warehouse links')
  (hDiffers : DiffersInData warehouse fs fs')

include h h' hDiffers

/-- Changes of data files leave the directories of tables. -/
theorem isDir_tableDir_congr (kind : Kind) :
    fs'.isDir (config.tableDir kind) = fs.isDir (config.tableDir kind) := by
  rw [Bool.eq_iff_iff, h.isDir_tableDir, h'.isDir_tableDir, hDiffers.entry _ not_isInData_table]

theorem isDir_dataDir_congr (kind : Kind) :
    fs'.isDir (config.dataDir kind) = fs.isDir (config.dataDir kind) := by
  cases hTable : fs.isDir (config.tableDir kind) with
  | false =>
      have hNotDir {other : FileSystem} (hOther : other.isDir (config.tableDir kind) = false) :
          other.isDir (config.dataDir kind) = false := by
        apply eq_false_of_ne_true
        intro hData
        cases hOther.symm.trans (isDir_tableDir_of_dataDir hData)
      rw [hNotDir hTable, hNotDir ((isDir_tableDir_congr h h' hDiffers kind).trans hTable)]
  | true =>
      have hDir := ((h.isDir_tableDir kind).mp hTable).2
      have hDir' := (hDiffers.entry _ not_isInData_table).trans hDir
      rw [Configuration.dataDir, Bool.eq_iff_iff, h.isDir_dataDir hDir, h'.isDir_dataDir hDir',
        hDiffers.entry _ not_isInData_data]

/-- A table of which no file is recorded. -/
theorem passedOver_alike (hReads : ReadsAlike config fs fs' kind) :
    Corresponds (Resembles config fs fs' kind) (passedOver config fs kind)
      (passedOver config fs' kind) := by
  have hStatus : passedStatus config fs' kind = passedStatus config fs kind := by
    funext count
    rw [passedStatus, passedStatus, isDir_tableDir_congr h h' hDiffers,
      isDir_dataDir_congr h h' hDiffers]
  rw [passedOver_of_isClear hReads.isClear, passedOver_of_isClear hReads.isClear']
  refine .ok ⟨?_, fun hFinds => ?_⟩
  · rw [uncounted_skipped_passedStatus, uncounted_skipped_passedStatus, hStatus]
  · rw [length_discoveredFiles_congr hReads.isClear hReads.isClear' hFinds, hStatus]

/-- The directories of the documents hold the same, so writing the same documents comes to the same
and leaves the same. -/
theorem writeDocuments_alike {result result' : Except Failure WrittenFiles}
    (hNamed : IsNamedBy documents stamp)
    (hDir : fs.entryAt? (tableLocation warehouse kind) = some .dir)
    (hRun : writeDocuments (config.tableDir kind) documents fs = (result, after))
    (hRun' : writeDocuments (config.tableDir kind) documents fs' = (result', after')) :
    result' = result ∧ DiffersInData warehouse after after' := by
  have hDir' := (hDiffers.entry _ not_isInData_table).trans hDir
  obtain ⟨hSlots, hChanges⟩ :=
    writeSlots_eq hNamed (h.tableDir hDir) hDir (h.inData.documents kind) hRun
  obtain ⟨hSlots', hChanges'⟩ :=
    writeSlots_eq hNamed (h'.tableDir hDir') hDir' (h'.inData.documents kind) hRun'
  have hEntry : fs'.entryAt? (documentsLocation warehouse kind) =
      fs.entryAt? (documentsLocation warehouse kind) :=
    hDiffers.entry _ (not_isInData_of_documents (List.prefix_refl _))
  have hEntries : slotsAt fs' (documentsLocation warehouse kind) =
      slotsAt fs (documentsLocation warehouse kind) :=
    funext fun name => hDiffers.entry _ (not_isInData_of_documents (List.prefix_append _ [name]))
  rw [hEntry, hEntries] at hSlots'
  obtain ⟨hResult, hAfter⟩ := Prod.mk.inj (hSlots'.symm.trans hSlots)
  obtain ⟨hAfterDir, hAfterSlots⟩ := Prod.mk.inj hAfter
  refine ⟨hResult, fun location hLocation => ?_, ?_⟩
  · by_cases hSelf : location = documentsLocation warehouse kind
    · subst hSelf
      exact hAfterDir
    by_cases hInside : ∃ name, location = documentsLocation warehouse kind ++ [name]
    · obtain ⟨name, rfl⟩ := hInside
      exact congrFun hAfterSlots name
    · have hBelow := not_exists.mp hInside
      rw [hChanges.entry _ hSelf hBelow, hChanges'.entry _ hSelf hBelow,
        hDiffers.entry _ hLocation]
  · rw [hChanges.workingDir, hChanges'.workingDir, hDiffers.workingDir]

/-- Runs over a table that read the same files come to the same but for what they count. -/
theorem generateTable_alike {result result' : Except Failure TableOutcome}
    (hInspect : config.inspectParquet) (hReads : ReadsAlike config fs fs' kind)
    (hRun : generateTable config kind stamp fs = (result, after))
    (hRun' : generateTable config kind stamp fs' = (result', after')) :
    Corresponds (Resembles config fs fs' kind) result result' ∧
      DiffersInData warehouse after after' := by
  have hRecorded := hReads.recordedFiles?_eq hInspect
  rcases generateTable_cases hRun with ⟨hNone, rfl, rfl⟩ | ⟨files, written, hFiles, hWrite, rfl⟩
  · rcases generateTable_cases hRun' with ⟨-, rfl, rfl⟩ | ⟨_, _, hFiles', -⟩
    · exact ⟨passedOver_alike h h' hDiffers hReads, hDiffers⟩
    · cases hNone.symm.trans (hRecorded.symm.trans hFiles')
  · rcases generateTable_cases hRun' with ⟨hNone, -⟩ | ⟨files', written', hFiles', hWrite', rfl⟩
    · cases hFiles.symm.trans (hRecorded.symm.trans hNone)
    · obtain rfl := Option.some_inj.mp (hFiles.symm.trans (hRecorded.symm.trans hFiles'))
      rw [documentsFor_congr (absoluteWarehouse_congr (.inr hDiffers.workingDir))] at hWrite' ⊢
      obtain ⟨hNamed, -, hDir⟩ := h.writes (documentsOf?_of_recordedFiles? hFiles stamp)
      obtain ⟨rfl, hLast⟩ := writeDocuments_alike h h' hDiffers hNamed hDir hWrite hWrite'
      refine ⟨?_, hLast⟩
      cases written' with
      | error failure => exact .error failure
      | ok written =>
          refine .ok ⟨uncounted_writtenOutcome _ _ _ _ _ _, fun hFinds => ?_⟩
          rw [length_discoveredFiles_congr hReads.isClear hReads.isClear' hFinds]

end Table

/-! Two runs over all tables. -/

/-- Outcomes of two runs for a table, each in the state in which its run came to the table. -/
def ResemblesAtTurn (config : Configuration) (stamps : Kind → Stamp) (fs fs' : FileSystem)
    (outcome outcome' : TableOutcome) : Prop :=
  ∃ kind, outcome.table = kind.name ∧
    Resembles config (atTurn config stamps fs kind) (atTurn config stamps fs' kind) kind outcome
      outcome'

/-- By induction on the tables that had their turns: what the runs left so far differs only below
data directories. -/
theorem generateTables_alike {before rest : List Kind}
    {result result' : Except Failure (List TableOutcome)} (hInspect : config.inspectParquet)
    (h : IsDepot config fs warehouse links) (h' : IsDepot config fs' warehouse links')
    (hDiffers : DiffersInData warehouse fs fs')
    (hReads : ∀ kind, ReadsAlike config (atTurn config stamps fs kind)
      (atTurn config stamps fs' kind) kind)
    (hKinds : Kind.all = before ++ rest)
    (hRun : generateTables config stamps before fs = (result, after))
    (hRun' : generateTables config stamps before fs' = (result', after')) :
    Corresponds (List.Forall₂ (ResemblesAtTurn config stamps fs fs')) result result' ∧
      IsDepot config after warehouse links ∧ IsDepot config after' warehouse links' ∧
        DiffersInData warehouse after after' := by
  induction before using List.reverseRecOn generalizing rest result result' after after' with
  | nil =>
      cases hRun
      cases hRun'
      exact ⟨.ok .nil, h, h', hDiffers⟩
  | append_singleton before kind ih =>
      rw [List.append_assoc, List.singleton_append] at hKinds
      rcases generateTables_concat_cases hRun with
        ⟨failure, hBefore, rfl⟩ | ⟨outcomes, middle, turn, hBefore, hTable, rfl⟩
      · rcases generateTables_concat_cases hRun' with
          ⟨failure', hBefore', rfl⟩ | ⟨_, _, _, hBefore', -, -⟩
        · obtain ⟨hSame, hLast⟩ := ih hKinds hBefore hBefore'
          cases hSame
          exact ⟨.error failure, hLast⟩
        · cases (ih hKinds hBefore hBefore').1
      · rcases generateTables_concat_cases hRun' with
          ⟨_, hBefore', -⟩ | ⟨outcomes', middle', turn', hBefore', hTable', rfl⟩
        · cases (ih hKinds hBefore hBefore').1
        · obtain ⟨hSame, hMiddle, hMiddle', hDiffers⟩ := ih hKinds hBefore hBefore'
          have hTurn : atTurn config stamps fs kind = middle := by
            rw [atTurn_eq hKinds, hBefore]
          have hTurn' : atTurn config stamps fs' kind = middle' := by
            rw [atTurn_eq hKinds, hBefore']
          have hReadsTurn := hReads kind
          rw [hTurn, hTurn'] at hReadsTurn
          obtain ⟨hOutcome, hLast⟩ :=
            generateTable_alike hMiddle hMiddle' hDiffers hInspect hReadsTurn hTable hTable'
          refine ⟨?_, (hMiddle.frames_of_generateTable hTable).1,
            (hMiddle'.frames_of_generateTable hTable').1, hLast⟩
          cases hSame with
          | ok hOutcomes =>
            cases hOutcome with
            | error failure => exact .error failure
            | ok hOutcome =>
                refine .ok (List.rel_append hOutcomes (.cons ⟨kind, ?_, ?_⟩ .nil))
                · exact table_of_generateTable hTable
                · rwa [hTurn, hTurn']

/-- Two warehouses that differ only below data directories, with links only there and at pointers,
each at the end of the path that a run comes along. In the turn of each table the run reads the same
files in both, and is not stopped. -/
structure AreAlike (config : Configuration) (stamps : Kind → Stamp) (warehouse : Location)
    (fs fs' : FileSystem) : Prop where
  inData : LinksInData fs warehouse
  inData' : LinksInData fs' warehouse
  leads : LeadsOnlyTo fs config.warehouse warehouse
  leads' : LeadsOnlyTo fs' config.warehouse warehouse
  isDir_eq : fs'.isDir config.warehouse = fs.isDir config.warehouse
  differs : DiffersInData warehouse fs fs'
  reads : ∀ kind, ReadsAlike config (atTurn config stamps fs kind)
    (atTurn config stamps fs' kind) kind

/-- Runs over both warehouses fail alike, or succeed with outcomes that resemble each other. -/
theorem AreAlike.generateTables {result result' : Except Failure (List TableOutcome)}
    (h : AreAlike config stamps warehouse fs fs') (hInspect : config.inspectParquet)
    (hDir : fs.isDir config.warehouse)
    (hRun : generateTables config stamps Kind.all fs = (result, after))
    (hRun' : generateTables config stamps Kind.all fs' = (result', after')) :
    Corresponds (List.Forall₂ (ResemblesAtTurn config stamps fs fs')) result result' ∧
      DiffersInData warehouse after after' := by
  have hStart : fs'.start? config.warehouse = fs.start? config.warehouse :=
    start?_congr (.inr h.differs.workingDir)
  rcases exists_isDepot h.inData h.leads hDir with ⟨links, hDepot⟩ | hNone
  · rcases exists_isDepot h.inData' h.leads' (h.isDir_eq.trans hDir) with ⟨links', hDepot'⟩ | hNone
    · obtain ⟨hResults, -, -, hLast⟩ := generateTables_alike hInspect hDepot hDepot' h.differs
        h.reads (List.append_nil Kind.all).symm hRun hRun'
      exact ⟨hResults, hLast⟩
    · obtain ⟨start, names, hSome, -⟩ := hDepot.reaches
      cases hSome.symm.trans (hStart.symm.trans hNone)
  · cases hRun.symm.trans (generateTables_of_start? hNone stamps Kind.all)
    cases hRun'.symm.trans (generateTables_of_start? (hStart.trans hNone) stamps Kind.all)
    refine ⟨.ok ?_, h.differs⟩
    rw [List.forall₂_map_left_iff, List.forall₂_map_right_iff, List.forall₂_same]
    exact fun kind _ => ⟨kind, rfl, rfl, fun _ => rfl⟩

/-- What a run comes to that differs from another only in what it counts. -/
structure ComesToSame (config : Configuration) (stamps : Kind → Stamp) (warehouse : Location)
    (fs fs' : FileSystem) (result result' : Except Failure Report) (after after' : FileSystem) :
    Prop where
  uncounted : result'.map Report.uncounted = result.map Report.uncounted
  table : ∀ report report', result = .ok report → result' = .ok report' → ∀ kind,
    FindsAlike config (atTurn config stamps fs kind) (atTurn config stamps fs' kind) kind →
      report'.table? kind.name = report.table? kind.name
  differs : DiffersInData warehouse after after'

/-- Tables of which the same files are found have the same outcome in both reports. -/
theorem table?_congr {outcomes outcomes' : List TableOutcome} {generatedAt : String}
    (h : List.Forall₂ (ResemblesAtTurn config stamps fs fs') outcomes outcomes')
    (hFinds : FindsAlike config (atTurn config stamps fs kind) (atTurn config stamps fs' kind)
      kind) :
    (config.report generatedAt outcomes').table? kind.name =
      (config.report generatedAt outcomes).table? kind.name := by
  simp only [Report.table?, Configuration.report]
  induction h with
  | nil => rfl
  | @cons outcome outcome' _ _ hFirst _ ih =>
      obtain ⟨turn, hTable, hResembles⟩ := hFirst
      have hTable' : outcome'.uncounted.table = outcome.uncounted.table := by
        rw [hResembles.uncounted]
      have hTable' : outcome'.table = outcome.table := hTable'
      by_cases hKind : outcome.table = kind.name
      · obtain rfl := kind_name_injective (hTable.symm.trans hKind)
        rw [hResembles.same hFinds, List.find?_cons_of_pos (by simpa using hKind),
          List.find?_cons_of_pos (by simpa using hKind)]
      · rw [List.find?_cons_of_neg (by simpa [hTable'] using hKind),
          List.find?_cons_of_neg (by simpa using hKind), ih]

/-- Runs over both warehouses come to the same, counts of unreadable files apart. -/
theorem AreAlike.generate {generatedAt : String} {result result' : Except Failure Report}
    (h : AreAlike config stamps warehouse fs fs') (hInspect : config.inspectParquet)
    (hRun : generate config stamps generatedAt fs = (result, after))
    (hRun' : generate config stamps generatedAt fs' = (result', after')) :
    ComesToSame config stamps warehouse fs fs' result result' after after' := by
  rw [generate_apply] at hRun hRun'
  rw [h.isDir_eq] at hRun'
  by_cases hDir : fs.isDir config.warehouse
  · rw [if_pos hDir] at hRun hRun'
    cases hTables : Warehouse.generateTables config stamps Kind.all fs with
    | mk tables last =>
      cases hTables' : Warehouse.generateTables config stamps Kind.all fs' with
      | mk tables' last' =>
        obtain ⟨hResults, hLast⟩ := h.generateTables hInspect hDir hTables hTables'
        rw [hTables] at hRun
        rw [hTables'] at hRun'
        cases hResults with
        | error failure =>
            cases hRun
            cases hRun'
            exact ⟨rfl, by simp, hLast⟩
        | @ok outcomes outcomes' hOutcomes =>
            cases hRun
            cases hRun'
            have hUncounted : outcomes'.map TableOutcome.uncounted =
                outcomes.map TableOutcome.uncounted := by
              rw [← List.forall₂_eq_eq_eq, List.forall₂_map_left_iff, List.forall₂_map_right_iff]
              exact hOutcomes.flip.imp fun _ _ ⟨_, _, hResembles⟩ => hResembles.uncounted
            refine ⟨?_, ?_, hLast⟩
            · simp only [Except.map, Report.uncounted, Configuration.report, hUncounted]
            · rintro _ _ ⟨⟩ ⟨⟩ kind hFinds
              exact table?_congr hOutcomes hFinds
  · rw [if_neg hDir] at hRun hRun'
    cases hRun
    cases hRun'
    exact ⟨rfl, by simp, h.differs⟩

/-! From the start of two runs to the turns of their tables. -/

theorem ChangesTables.mono {kinds others : List Kind} (h : ChangesTables warehouse kinds fs after)
    (hSubset : kinds ⊆ others) : ChangesTables warehouse others fs after :=
  ⟨fun location hLocation => h.entry location fun kind hKind => hLocation kind (hSubset hKind),
    h.workingDir⟩

/-- Where all links are pointers, a run over some tables changes documents of these only. -/
theorem IsReached.generateTables {kinds : List Kind} {result : Except Failure (List TableOutcome)}
    (h : IsReached config fs warehouse links)
    (hRun : generateTables config stamps kinds fs = (result, after)) :
    IsReached config after warehouse links ∧ ChangesTables warehouse kinds fs after := by
  apply generateTables_induction (fun fs => IsReached config fs warehouse links)
    (ChangesTables warehouse kinds) ?refl ?trans ?table h hRun
  case refl => exact .refl
  case trans =>
    intro fs middle after hFirst hSecond
    exact (hFirst.trans hSecond).mono (List.append_subset.mpr ⟨.refl _, .refl _⟩)
  case table =>
    intro kind hKind fs result after hReached hTable
    obtain ⟨hAfter, hChanges⟩ := hReached.generateTable hTable
    exact ⟨hAfter, hChanges.mono (by simpa using hKind)⟩

/-- So a table has its turn in a state in which a scan of it comes to what it came to at first. -/
theorem IsWarehouse.examinesSame (h : IsWarehouse config fs warehouse) (stamps : Kind → Stamp)
    (kind : Kind) : ExaminesSame config fs (atTurn config stamps fs kind) kind := by
  rcases exists_isReached h.pointers h.leads h.isDir with ⟨links, hReached⟩ | hStart
  · obtain ⟨hAfter, hChanges⟩ : IsReached config (atTurn config stamps fs kind) warehouse links ∧
        ChangesTables warehouse (Kind.all.takeWhile (· ≠ kind)) fs (atTurn config stamps fs kind) :=
      hReached.generateTables rfl
    have hTable : AgreeBelow fs (tableLocation warehouse kind) (atTurn config stamps fs kind)
        (tableLocation warehouse kind) :=
      hChanges.agreeBelow fun hMem => by simpa using List.mem_takeWhile_imp hMem
    exact examinesSame_of_agreeBelow hReached hAfter hTable.entry_eq (hTable.append _) (.inl .rfl)
  · rw [atTurn, generateTables_of_start? hStart]
    exact .refl config fs kind

theorem ReadsAlike.congr {state state' : FileSystem} (h : ReadsAlike config fs fs' kind)
    (hSame : ExaminesSame config fs state kind) (hSame' : ExaminesSame config fs' state' kind) :
    ReadsAlike config state state' kind := by
  refine ⟨hSame.isClear h.isClear, hSame'.isClear h.isClear', fun pair content => ?_⟩
  rw [hSame'.readsSame, h.readsSame, hSame.readsSame]

theorem FindsAlike.congr {state state' : FileSystem} (h : FindsAlike config fs fs' kind)
    (hSame : ExaminesSame config fs state kind) (hSame' : ExaminesSame config fs' state' kind) :
    FindsAlike config state state' kind := by
  intro pair
  rw [hSame'.findsAlike, h, hSame.findsAlike]

/-- Two warehouses without other links than pointers are alike if they differ only below data
directories and show the same readable files at first. -/
theorem IsWarehouse.areAlike (h : IsWarehouse config fs warehouse)
    (h' : IsWarehouse config fs' warehouse) (hDiffers : DiffersInData warehouse fs fs')
    (hReads : ∀ kind, ReadsAlike config fs fs' kind) (stamps : Kind → Stamp) :
    AreAlike config stamps warehouse fs fs' := by
  refine ⟨h.pointers.linksInData, h'.pointers.linksInData, h.leads, h'.leads, ?_, hDiffers,
    fun kind => (hReads kind).congr (h.examinesSame stamps kind) (h'.examinesSame stamps kind)⟩
  rw [h.isDir, h'.isDir]

/-! What a run does about entries that it cannot read. -/

/-- Why a run stops: the path of the warehouse leads to no directory, and nothing is done, or in the
turn of a table its documents cannot be written, or the status of an entry cannot be had that a scan
asks for, and then nothing more is done. -/
inductive StopsBy (config : Configuration) (stamps : Kind → Stamp) (fs : FileSystem) :
    Failure → FileSystem → Prop where
  | warehouse (missing : ¬fs.isDir config.warehouse) :
      StopsBy config stamps fs (.warehouseNotFound config.warehouse) fs
  | documents {kind : Kind} {documents : Documents} {failure : Failure} {after : FileSystem}
      (recorded : documentsOf? config (atTurn config stamps fs kind) kind (stamps kind) =
        some documents)
      (refused : writeDocuments (config.tableDir kind) documents (atTurn config stamps fs kind) =
        (.error failure, after)) : StopsBy config stamps fs failure after
  | entry {kind : Kind} {pair : String × String} {fault : Fault}
      (obstructs : Scan.Obstructs (atTurn config stamps fs kind) (config.dataDir kind) pair fault) :
      StopsBy config stamps fs (.io (Scan.pathOf (config.dataDir kind) pair) fault)
        (atTurn config stamps fs kind)

/-- A run fails only for one of the reasons given. -/
theorem stopsBy_of_generate {generatedAt : String} {failure : Failure}
    (h : generate config stamps generatedAt fs = (.error failure, after)) :
    StopsBy config stamps fs failure after := by
  rw [generate_apply] at h
  split at h
  next =>
    split at h
    next => cases h
    next other last hRun =>
      cases h
      obtain ⟨before, kind, rest, outcomes, middle, hKinds, hBefore, hTurn⟩ :=
        exists_failing_turn hRun
      obtain rfl : atTurn config stamps fs kind = middle := by
        rw [atTurn_eq hKinds, hBefore]
      rcases generateTable_eq_error hTurn with
        ⟨documents, hDocuments, hWrite⟩ | ⟨pair, fault, hObstructs, rfl, rfl⟩
      · exact .documents hDocuments hWrite
      · exact .entry hObstructs
  next hDir =>
    cases h
    exact .warehouse hDir

/-- An entry that obstructs the scan of a table makes the run fail. -/
theorem exists_failure_of_obstructs {generatedAt : String} {result : Except Failure Report}
    {pair : String × String} {fault : Fault}
    (h : generate config stamps generatedAt fs = (result, after))
    (hObstructs : Scan.Obstructs (atTurn config stamps fs kind) (config.dataDir kind) pair fault) :
    ∃ failure, result = .error failure := by
  rcases generate_eq h with ⟨-, hFailure⟩ | ⟨-, tables, hRun, rfl⟩
  · exact hFailure
  cases tables with
  | error failure => exact ⟨failure, rfl⟩
  | ok outcomes =>
      obtain ⟨outcome, hTurn⟩ := exists_outcome_atTurn hRun kind
      exact absurd hObstructs (isClear_of_generateTable (Prod.ext hTurn rfl) pair fault)

/-- Where nothing obstructs a run over a served warehouse with room for the names, it reports. -/
theorem exists_report_of_isClear (hServed : IsServed config fs warehouse) (hRoom : HasRoom config)
    (hDir : fs.isDir config.warehouse)
    (hClear : ∀ kind, IsClear config (atTurn config stamps fs kind) kind) (generatedAt : String) :
    ∃ report after, generate config stamps generatedAt fs = (.ok report, after) := by
  cases hRun : generate config stamps generatedAt fs with
  | mk result after =>
    cases result with
    | ok report => exact ⟨report, after, rfl⟩
    | error failure =>
        cases stopsBy_of_generate hRun with
        | warehouse hMissing => exact absurd hDir hMissing
        | @documents kind _ _ _ hRecorded hRefused =>
            obtain ⟨hTurn, -⟩ : IsServed config (atTurn config stamps fs kind) warehouse ∧ _ :=
              generateTables_isServed hServed hRoom rfl
            obtain ⟨_, _, hTable, -⟩ := generateTable_isWritten hTurn hRoom hRecorded
            obtain ⟨_, -, hFailed⟩ := generateTable_of_some hRecorded
            rw [hRefused] at hFailed
            cases hTable.symm.trans hFailed
        | @entry kind _ _ hObstructs => exact absurd hObstructs (hClear kind _ _)

/-- How a run that inspects footers passes over what it cannot read. -/
structure PassesOver (config : Configuration) (stamps : Kind → Stamp) (generatedAt : String)
    (fs : FileSystem) (result : Except Failure Report) (after : FileSystem) : Prop where
  stops : ∀ failure, result = .error failure → StopsBy config stamps fs failure after
  obstructed : ∀ kind pair fault,
    Scan.Obstructs (atTurn config stamps fs kind) (config.dataDir kind) pair fault →
      ∃ failure, result = .error failure
  lists : ∀ kind, IsClear config (atTurn config stamps fs kind) kind →
    ∃ files, ListsReadable config (atTurn config stamps fs kind) kind files ∧
      documentsOf? config (atTurn config stamps fs kind) kind (stamps kind) =
        if files = [] then none
        else some (documentsFor config (atTurn config stamps fs kind) kind files (stamps kind))
  ignores : ∀ kind other, ReadsAlike config (atTurn config stamps fs kind) other kind →
    other.workingDir = (atTurn config stamps fs kind).workingDir →
      documentsOf? config other kind (stamps kind) =
        documentsOf? config (atTurn config stamps fs kind) kind (stamps kind)
  alike : ∀ warehouse fs' result' after', AreAlike config stamps warehouse fs fs' →
    generate config stamps generatedAt fs' = (result', after') →
      ComesToSame config stamps warehouse fs fs' result result' after after'
  alike_from_start : ∀ warehouse fs' result' after', IsWarehouse config fs warehouse →
    IsWarehouse config fs' warehouse → DiffersInData warehouse fs fs' →
      (∀ kind, ReadsAlike config fs fs' kind) →
        generate config stamps generatedAt fs' = (result', after') →
          ComesToSame config stamps warehouse fs fs' result result' after after' ∧
            ∀ report report', result = .ok report → result' = .ok report' → ∀ kind,
              FindsAlike config fs fs' kind → report'.table? kind.name = report.table? kind.name

/-- A run that inspects footers fails only if the path of the warehouse leads to no directory, if
documents cannot be written, or if the status of an entry cannot be had that stands in a directory
in a data directory and has the suffix of data files. Each such entry does make it fail. Where there
is none, the documents of a table are about the files whose footers can be read, and about nothing
else that is there. Runs over two warehouses in which the same files can be read come to the same
and leave the same, but for the data and for the numbers of files found and of unreadable ones. -/
theorem passesOver_of_generate {generatedAt : String} {result : Except Failure Report}
    (hInspect : config.inspectParquet)
    (h : generate config stamps generatedAt fs = (result, after)) :
    PassesOver config stamps generatedAt fs result after := by
  constructor
  case stops =>
    rintro failure rfl
    exact stopsBy_of_generate h
  case obstructed => exact fun _ _ _ => exists_failure_of_obstructs h
  case lists =>
    intro kind hClear
    obtain ⟨files, hFiles, hRecorded⟩ := exists_listsReadable hInspect hClear
    refine ⟨files, hFiles, ?_⟩
    rw [documentsOf?, hRecorded]
    split <;> rfl
  case ignores =>
    intro kind other hReads hWorkingDir
    exact hReads.documentsOf?_eq hInspect hWorkingDir (stamps kind)
  case alike =>
    intro warehouse fs' result' after' hAlike hRun
    exact hAlike.generate hInspect h hRun
  case alike_from_start =>
    intro warehouse fs' result' after' hFirst hSecond hDiffers hReads hRun
    have hSame := (hFirst.areAlike hSecond hDiffers hReads stamps).generate hInspect h hRun
    refine ⟨hSame, fun report report' hReport hReport' kind hFinds => ?_⟩
    exact hSame.table report report' hReport hReport' kind
      (hFinds.congr (hFirst.examinesSame stamps kind) (hSecond.examinesSame stamps kind))

section Partition

variable {tags : Option (List (Name × Node))}

/-- Where two such warehouses have the same tables, they differ in data. -/
theorem differsInData_partitionTree {contents others : Kind → Option (List (Name × Node))}
    (hSome : ∀ kind, (others kind).isSome = (contents kind).isSome) :
    DiffersInData [] (partitionTree contents) (partitionTree others) := by
  refine ⟨fun location hLocation => ?_, rfl⟩
  have hSame {first second : Kind → Option (List (Name × Node))}
      (hTables : ∀ kind, (second kind).isSome = (first kind).isSome) (entry : Entry)
      (h : (partitionTree first).entryAt? location = some entry) :
      (partitionTree second).entryAt? location = some entry := by
    obtain ⟨rfl, hOthers⟩ := (isInData_or_of_entryAt? h).resolve_left hLocation
    exact hOthers second hTables
  exact Option.ext fun entry => ⟨hSame (fun kind => (hSome kind).symm) entry, hSame hSome entry⟩

/-- Two partitions that hold the same show the same files. -/
theorem findsAlike_partitionTree {contents others : Kind → Option (List (Name × Node))}
    (hFiles : AreFiles contents) (hOthers : AreFiles others) (hSame : others kind = contents kind) :
    FindsAlike inspecting (partitionTree contents) (partitionTree others) kind := by
  intro pair
  rw [isFound_partitionTree_iff hFiles, isFound_partitionTree_iff hOthers, hSame]

/-- The same files can be read with and without the one that is too short. -/
theorem readsAlike_withBlocks (hTags : tags = none ∨ tags = some readableEntries) (kind : Kind) :
    ReadsAlike inspecting (partitionTree (withBlocks mixedEntries tags))
      (partitionTree (withBlocks readableEntries tags)) kind := by
  have hMixed := areFiles_withBlocks (.inr rfl) hTags
  have hReadable := areFiles_withBlocks (.inl rfl) hTags
  refine ⟨isClear_partitionTree hMixed kind, isClear_partitionTree hReadable kind,
    fun pair content => ?_⟩
  rw [isReadable_partitionTree_iff hMixed, isReadable_partitionTree_iff hReadable]
  refine and_congr_left fun hFooter => and_congr_right fun _ => and_congr_right fun _ => ?_
  by_cases hKind : kind = .blocks
  · subst hKind
    simp only [withBlocks, Option.some.injEq, exists_eq_left', child?_mixedEntries,
      child?_readableEntries]
    refine ⟨.inl, fun hChild => hChild.resolve_right ?_⟩
    rintro ⟨-, rfl⟩
    rw [(ofContent?_isSome _).2] at hFooter
    cases hFooter
  · rw [withBlocks_of_ne readableEntries mixedEntries tags hKind]

end Partition

/-- Two tables with a file that can be read, beside a short file in one of them. -/
def shortFileTree : FileSystem := partitionTree (withBlocks mixedEntries (some readableEntries))

/-- The run over such a warehouse comes to its end. -/
theorem exists_report_withBlocks (stamps : Kind → Stamp) {blocks : List (Name × Node)}
    (hBlocks : blocks = readableEntries ∨ blocks = mixedEntries) :
    ∃ report after, generate inspecting stamps ""
      (partitionTree (withBlocks blocks (some readableEntries))) = (.ok report, after) := by
  have hFiles := areFiles_withBlocks hBlocks (.inr rfl)
  have hWarehouse := isWarehouse_partitionTree hFiles
  exact exists_report_of_isClear (isServed_partitionTree hFiles) hasRoom_inspecting
    hWarehouse.isDir (fun kind => (hWarehouse.examinesSame stamps kind).isClear
      (isClear_partitionTree hFiles kind)) ""

theorem isReadable_shortFileTree (hKind : kind = .blocks ∨ kind = .tags) :
    IsReadable inspecting shortFileTree kind (partitionName, "a.parquet") sampleContent := by
  have hFiles := areFiles_withBlocks (.inr rfl) (.inr rfl)
  rcases hKind with rfl | rfl
  · exact isReadable_sample hFiles rfl (.inr rfl)
  · exact isReadable_sample hFiles rfl (.inl rfl)

/-- A run over a file with a footer and one without it, and over another table. Both tables have a
file that can be read, and the run reports on the other as it does if the short file is not there. -/
theorem passesOver_short_file : ∃ report after report' after',
    inspecting.inspectParquet ∧
    generate inspecting (fun _ => ⟨0, default, default⟩) "" shortFileTree = (.ok report, after) ∧
    PassesOver inspecting (fun _ => ⟨0, default, default⟩) "" shortFileTree (.ok report) after ∧
    (∀ kind, kind = .blocks ∨ kind = .tags →
      IsReadable inspecting shortFileTree kind (partitionName, "a.parquet") sampleContent) ∧
    generate inspecting (fun _ => ⟨0, default, default⟩) "" blocksAndTagsTree = (.ok report', after') ∧
    AreAlike inspecting (fun _ => ⟨0, default, default⟩) [] shortFileTree blocksAndTagsTree ∧
    ComesToSame inspecting (fun _ => ⟨0, default, default⟩) [] shortFileTree blocksAndTagsTree
      (.ok report) (.ok report') after after' ∧
    report'.table? Kind.tags.name = report.table? Kind.tags.name := by
  obtain ⟨report, after, hRun⟩ : ∃ report after, generate inspecting (fun _ => ⟨0, default, default⟩)
      "" shortFileTree = (.ok report, after) := exists_report_withBlocks _ (.inr rfl)
  obtain ⟨report', after', hRun'⟩ : ∃ report after, generate inspecting
      (fun _ => ⟨0, default, default⟩) "" blocksAndTagsTree = (.ok report, after) :=
    exists_report_withBlocks _ (.inl rfl)
  have hMixed := areFiles_withBlocks (.inr rfl) (.inr rfl)
  have hReadable := areFiles_withBlocks (.inl rfl) (.inr rfl)
  have hFirst : IsWarehouse inspecting shortFileTree [] := isWarehouse_partitionTree hMixed
  have hSecond : IsWarehouse inspecting blocksAndTagsTree [] := isWarehouse_partitionTree hReadable
  have hDiffers : DiffersInData [] shortFileTree blocksAndTagsTree :=
    differsInData_partitionTree (isSome_withBlocks _ _ _)
  have hReads : ∀ kind, ReadsAlike inspecting shortFileTree blocksAndTagsTree kind :=
    readsAlike_withBlocks (.inr rfl)
  have hTags : FindsAlike inspecting shortFileTree blocksAndTagsTree .tags :=
    findsAlike_partitionTree hMixed hReadable (withBlocks_of_ne _ _ _ (by decide))
  have hPasses : PassesOver inspecting (fun _ => ⟨0, default, default⟩) "" shortFileTree (.ok report)
      after := passesOver_of_generate rfl hRun
  obtain ⟨hSame, hTable⟩ :=
    hPasses.alike_from_start [] blocksAndTagsTree _ _ hFirst hSecond hDiffers hReads hRun'
  exact ⟨report, after, report', after', rfl, hRun, hPasses, fun _ => isReadable_shortFileTree,
    hRun', hFirst.areAlike hSecond hDiffers hReads _, hSame, hTable _ _ rfl rfl .tags hTags⟩

/-- A link that leads nowhere beside a file with a footer. -/
def danglingEntries : List (Name × Node) :=
  (Name.ofString "b.parquet", .link (.ofString "gone")) :: readableEntries

/-- A warehouse with such a link. -/
def danglingTree : FileSystem := partitionTree (withBlocks danglingEntries none)

/-- The link that leads nowhere obstructs the scan of the blocks. -/
theorem obstructs_danglingTree :
    Scan.Obstructs danglingTree (inspecting.dataDir .blocks) (partitionName, "b.parquet")
      .notFound := by
  have hName : (Name.ofString "b.parquet").Fits 9 := Name.fits_ofString (by decide)
  have hGone : (Name.ofString "gone").Fits 4 := Name.fits_ofString (by decide)
  have hBeside : IsBeside (.ofString "gone") (Name.ofString "gone") :=
    ⟨by decide, by decide, by decide, hGone.proper, Nat.le_trans hGone.length_le (by decide)⟩
  have hContents : withBlocks danglingEntries none .blocks = some danglingEntries := rfl
  obtain ⟨-, -, hReaches, -⟩ := status_partitionTree hContents
  refine ⟨isExamined_partitionTree hContents rfl hName isCandidate_b, ?_⟩
  exact hReaches.status_link rfl hName.proper (Nat.le_trans hName.length_le (by decide))
    (accepts_dataFile .blocks hName) rfl hBeside (fun _ hLink => by cases hLink)

/-- The tables that are not there are not there in their turns either. -/
theorem not_isDir_dataDir_atTurn (stamps : Kind → Stamp) (hKind : kind ≠ .blocks) :
    ¬(atTurn inspecting stamps danglingTree kind).isDir (inspecting.dataDir kind) := by
  intro hData
  have hDepot := isDepot_partitionTree (withBlocks danglingEntries none)
  have hDir := (hDepot.isDir_tableDir_atTurn stamps kind kind).mp (isDir_tableDir_of_dataDir hData)
  obtain ⟨-, hEntry⟩ := (hDepot.isDir_tableDir kind).mp hDir
  cases kind with
  | blocks => exact hKind rfl
  | transactions | tags => cases hEntry

/-- A link that leads nowhere stops a run over a warehouse that is there, and no documents are at
fault. -/
theorem not_passed_over_dangling_link :
    ¬∀ (config : Configuration) (stamps : Kind → Stamp) (generatedAt : String)
      (fs after : FileSystem) (failure : Failure), config.inspectParquet →
        generate config stamps generatedAt fs = (.error failure, after) →
          ¬fs.isDir config.warehouse ∨ ∃ kind documents,
            documentsOf? config (atTurn config stamps fs kind) kind (stamps kind) =
              some documents ∧
            writeDocuments (config.tableDir kind) documents (atTurn config stamps fs kind) =
              (.error failure, after) := by
  intro hAll
  have hDir : danglingTree.isDir inspecting.warehouse := isDir_inspecting _
  have hData := obstructs_danglingTree.1.isDir_dataDir
  obtain ⟨failure, hScan⟩ :=
    obstructs_danglingTree.ofTable_eq_error (isDir_tableDir_of_dataDir hData) hData
  have hTable (stamp : Stamp) : generateTable inspecting .blocks stamp danglingTree =
      (.error failure, danglingTree) := by
    rw [generateTable_apply, hScan]
  have hRun : generate inspecting (fun _ => ⟨0, default, default⟩) "" danglingTree =
      (.error failure, danglingTree) := by
    rw [generate_apply, if_pos hDir, Kind.all, generateTables_cons, hTable]
  rcases hAll _ _ _ _ _ _ rfl hRun with hNotDir | ⟨kind, documents, hDocuments, -⟩
  · exact hNotDir hDir
  · obtain ⟨files, hFiles, -⟩ := Option.map_eq_some_iff.mp hDocuments
    obtain ⟨discovered, hFound, -, -⟩ := recordedFiles?_eq_some hFiles
    by_cases hKind : kind = .blocks
    · subst hKind
      cases hScan.symm.trans hFound
    · exact not_isDir_dataDir_atTurn _ hKind (isDir_dataDir_of_ofTable hFound)

end ExportKit.Warehouse
