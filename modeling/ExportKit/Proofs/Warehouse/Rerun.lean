import ExportKit.Proofs.Warehouse.Stopping
import ExportKit.Proofs.Warehouse.Totals

/-!
Running again over a warehouse. A run does not find its own documents, so a second one with the same
stamps writes the same again and changes nothing. With other stamps it writes the same documents but
for the fields that tell runs apart. Main statement: `rerun_of_generate`.
-/
namespace ExportKit

namespace Table

/-- A snapshot of the same files that another run makes. -/
def Snapshot.restamped (snapshot : Snapshot) (stamp : Stamp) : Snapshot :=
  { snapshot with
    snapshotId := stamp.snapshotId
    timestampMs := stamp.timestampMs
    manifestList := stamp.manifestListFileName }

/-- The metadata that another run writes about the same files. -/
def Metadata.restamped (metadata : Metadata) (stamp : Stamp) : Metadata :=
  { metadata with
    tableUuid := stamp.tableUuid
    lastUpdatedMs := stamp.timestampMs
    currentSnapshotId := stamp.snapshotId
    refs := metadata.refs.insert Metadata.mainBranch ⟨stamp.snapshotId⟩
    snapshots := metadata.snapshots.map fun snapshot => snapshot.restamped stamp }

/-- A manifest of the same files as another run lists it. -/
def ManifestFile.restamped (file : ManifestFile) (stamp : Stamp) : ManifestFile :=
  { file with manifestPath := stamp.manifestFileName, addedSnapshotId := stamp.snapshotId }

/-- The manifest list that another run writes about the same files. -/
def ManifestList.restamped (list : ManifestList) (stamp : Stamp) : ManifestList :=
  { list with manifests := list.manifests.map fun file => file.restamped stamp }

/-- The documents that another run writes about the same files. The manifest stays as it is. -/
def Documents.restamped (documents : Documents) (stamp : Stamp) : Documents where
  metadata := documents.metadata.restamped stamp
  manifest := documents.manifest
  manifestFileName := stamp.manifestFileName
  manifestList := documents.manifestList.restamped stamp
  manifestListFileName := stamp.manifestListFileName

/-- Two runs over the same files write the same documents but for their stamps. -/
theorem Documents.restamped_ofFiles (kind : Kind) (files : List DataFile)
    (warehouse location : Path) (width : BucketWidth) (stamp other : Stamp) :
    (Documents.ofFiles kind files warehouse location width stamp).restamped other =
      .ofFiles kind files warehouse location width other := by
  have hRefs (ref : SnapshotRef) : (SortedMap.ofList [(Metadata.mainBranch, ref)]).insert
      Metadata.mainBranch ⟨other.snapshotId⟩ =
        .ofList [(Metadata.mainBranch, ⟨other.snapshotId⟩)] := by
    simp [SortedMap.ofList, SortedMap.insert, SortedMap.insertEntry, SortedMap.empty]
  simp only [Documents.restamped, Documents.ofFiles, Metadata.restamped, Metadata.ofFiles, hRefs]
  rfl

end Table

namespace Warehouse

open FileSystem
open Table (Documents Kind Stamp)

/-- An outcome without the paths that tell runs apart. -/
def TableOutcome.unstamped (outcome : TableOutcome) : TableOutcome :=
  { outcome with
    written := outcome.written.map fun files =>
      { files with manifest := .ofString "", manifestList := .ofString "" } }

/-- A report without what tells runs apart. -/
def Report.unstamped (report : Report) : Report :=
  { report with generatedAt := "", tables := report.tables.map TableOutcome.unstamped }

/-- The documents of a table are there, each in its file, unless a device stands in its place, which
took what was written. -/
def IsStored (fs : FileSystem) (dir : Location) (documents : Documents) : Prop :=
  ∀ name entry, (name, entry) ∈ filesOf documents →
    fs.entryAt? (dir ++ [name]) = some entry ∨
      ∃ device, fs.entryAt? (dir ++ [name]) = some (.device device)

variable {fs middle after last : FileSystem} {config : Configuration} {kind : Kind}
  {kinds : List Kind} {stamp other : Stamp} {stamps others : Kind → Stamp} {documents : Documents}
  {outcome outcome' : TableOutcome} {links : Nat} {warehouse : Location}

theorem documentsFor_restamped (config : Configuration) (fs : FileSystem) (kind : Kind)
    (files : List Table.DataFile) (stamp other : Stamp) :
    (documentsFor config fs kind files stamp).restamped other =
      documentsFor config fs kind files other :=
  Documents.restamped_ofFiles kind files _ _ _ stamp other

/-! Runs over one table. -/

/-- The documents of a run that does not fail are there. -/
theorem isStored_of_generateTable (h : IsReached config fs warehouse links)
    (hDocuments : documentsOf? config fs kind stamp = some documents)
    (hRun : generateTable config kind stamp fs = (.ok outcome, after)) :
    IsStored after (documentsLocation warehouse kind) documents := by
  obtain ⟨hNamed, hTable, hDir⟩ := h.isDepot.writes hDocuments
  obtain ⟨_, -, hWrite⟩ := generateTable_of_some hDocuments
  rw [hWrite] at hRun
  split at hRun
  next hWriteRun =>
    cases hRun
    obtain ⟨hSlots, -⟩ :=
      writeSlots_eq hNamed hTable hDir (h.pointers.documents kind) hWriteRun
    obtain ⟨-, -, -, hHolds⟩ := writeSlots_of_ok hNamed hSlots
    exact fun name entry hMem => hHolds _ hMem
  next => cases hRun

/-- Stored documents stay if nothing changes in the directory of their table. -/
theorem IsStored.of_agreeBelow (h : IsStored fs (documentsLocation warehouse kind) documents)
    (hAgree : AgreeBelow fs (tableLocation warehouse kind) after (tableLocation warehouse kind)) :
    IsStored after (documentsLocation warehouse kind) documents := by
  intro name entry hMem
  rw [agreeBelow_documents hAgree]
  exact h name entry hMem

/-- The files that are written are those of the table. -/
theorem written_of_writeDocuments {written : WrittenFiles} {tableDir : Path}
    (h : writeDocuments tableDir documents fs = (.ok written, after)) :
    written = .ofTable tableDir documents := by
  rw [writeDocuments_eq_runAll] at h
  obtain ⟨_, _, -, hReturn⟩ := Activity.bind_eq_ok h
  cases hReturn
  rfl

/-- Documents that could be written can be written again where they are, and nothing changes. -/
theorem writeDocuments_again {written : WrittenFiles} {tableDir : Path}
    (hNamed : IsNamedBy documents stamp)
    (hReaches : Reaches fs tableDir links (tableLocation warehouse kind))
    (hReaches' : Reaches after tableDir links (tableLocation warehouse kind))
    (hDir : fs.entryAt? (tableLocation warehouse kind) = some .dir)
    (hDir' : after.entryAt? (tableLocation warehouse kind) = some .dir)
    (hPointers : OnlyPointers fs warehouse) (hPointers' : OnlyPointers after warehouse)
    (hRun : writeDocuments tableDir documents fs = (.ok written, middle))
    (hAgree : AgreeBelow middle (tableLocation warehouse kind) after
      (tableLocation warehouse kind)) :
    ∃ again, writeDocuments tableDir documents after = (.ok written, again) ∧
      AgreeBelow after (tableLocation warehouse kind) again (tableLocation warehouse kind) := by
  obtain ⟨hSlots, -⟩ := writeSlots_eq hNamed hReaches hDir (hPointers.documents kind) hRun
  obtain ⟨-, -, hSame, -⟩ := writeSlots_of_ok hNamed hSlots
  cases hAgain : writeDocuments tableDir documents after with
  | mk result again =>
    obtain ⟨hSlots', hChanges⟩ :=
      writeSlots_eq hNamed hReaches' hDir' (hPointers'.documents kind) hAgain
    have hEntry : after.entryAt? (documentsLocation warehouse kind) =
        middle.entryAt? (documentsLocation warehouse kind) := hAgree _
    have hEntries : slotsAt after (documentsLocation warehouse kind) =
        slotsAt middle (documentsLocation warehouse kind) :=
      funext fun name => (hAgree.append [Name.ofString Table.Documents.directoryName]) [name]
    rw [hEntry, hEntries, hSame] at hSlots'
    obtain ⟨rfl, hLast⟩ := Prod.mk.inj hSlots'
    obtain ⟨hLastDir, hLastSlots⟩ := Prod.mk.inj hLast
    have hNone : ChangesDocuments warehouse kind after after := ⟨fun _ _ _ => rfl, rfl⟩
    exact ⟨again, rfl, agreeBelow_of_changes (.refl _ _) hNone hChanges
      (hLastDir.symm.trans hEntry.symm) (hLastSlots.symm.trans hEntries.symm)⟩

/-- Documents written for some tables do not change what is written about another. -/
theorem documentsFor_of_changes (hChanges : ChangesTables warehouse kinds fs after)
    (files : List Table.DataFile) :
    documentsFor config after kind files stamp = documentsFor config fs kind files stamp :=
  documentsFor_congr (absoluteWarehouse_congr (.inr hChanges.workingDir)) files

section Twice

variable (h : IsReached config fs warehouse links) (hAfter : IsReached config after warehouse links)
  (hChanges : ChangesTables warehouse kinds fs after)

include h hAfter hChanges

/-- What runs write is not among the files that they find. -/
theorem findsSame_of_changes : FindsSame config fs after kind :=
  findsSame_of_agreeBelow h hAfter (hChanges.entry_table kind) (hChanges.agreeBelow_data kind)
    (.inl Iff.rfl)

/-- A run that finds what it left before comes to the same and changes nothing. -/
theorem generateTable_again (hRun : generateTable config kind stamp fs = (.ok outcome, middle))
    (hAgree : AgreeBelow middle (tableLocation warehouse kind) after
      (tableLocation warehouse kind)) :
    (generateTable config kind stamp after).1 = .ok outcome ∧
      AgreeBelow after (tableLocation warehouse kind) (generateTable config kind stamp after).2
        (tableLocation warehouse kind) := by
  have hFinds : FindsSame config fs after kind := findsSame_of_changes h hAfter hChanges
  rw [generateTable_eq] at hRun ⊢
  rw [hFinds.recordedFiles?_eq, hFinds.discoveredFiles_eq, hFinds.passedOver_eq]
  cases hFiles : recordedFiles? config fs kind with
  | none =>
      rw [hFiles] at hRun
      exact ⟨(Prod.mk.inj hRun).1, .refl _ _⟩
  | some files =>
      obtain ⟨hNamed, hTable, hDir⟩ := h.isDepot.writes (documentsOf?_of_recordedFiles? hFiles stamp)
      simp only [hFiles] at hRun
      simp only [documentsFor_of_changes hChanges files]
      split at hRun
      next written first hWrite =>
        cases hRun
        obtain ⟨again, hAgain, hSame⟩ := writeDocuments_again hNamed hTable
          (hAfter.isDepot.tableDir ((hChanges.entry_table kind).trans hDir)) hDir
          ((hChanges.entry_table kind).trans hDir) h.pointers hAfter.pointers hWrite hAgree
        rw [hAgain]
        exact ⟨rfl, hSame⟩
      next => cases hRun

/-- A run with another stamp comes to the same but for the stamp. -/
theorem generateTable_restamped (hRun : generateTable config kind stamp fs = (.ok outcome, middle))
    (hAgain : generateTable config kind other after = (.ok outcome', last)) :
    outcome'.unstamped = outcome.unstamped := by
  have hFinds : FindsSame config fs after kind := findsSame_of_changes h hAfter hChanges
  rw [generateTable_eq] at hRun hAgain
  rw [hFinds.recordedFiles?_eq, hFinds.discoveredFiles_eq, hFinds.passedOver_eq] at hAgain
  cases hFiles : recordedFiles? config fs kind with
  | none =>
      rw [hFiles] at hRun hAgain
      cases (Prod.mk.inj hRun).1.symm.trans (Prod.mk.inj hAgain).1
      rfl
  | some files =>
      simp only [hFiles, documentsFor_of_changes hChanges files] at hRun hAgain
      split at hRun
      next written _ hWrite =>
        split at hAgain
        next written' _ hWrite' =>
          cases hRun
          cases hAgain
          rw [written_of_writeDocuments hWrite, written_of_writeDocuments hWrite']
          obtain ⟨snapshot, hSnapshot, hSummary⟩ :=
            currentSnapshot?_documentsFor config fs kind files stamp
          obtain ⟨snapshot', hSnapshot', hSummary'⟩ :=
            currentSnapshot?_documentsFor config fs kind files other
          simp only [TableOutcome.unstamped, writtenOutcome, hSnapshot, hSnapshot', hSummary,
            hSummary', Option.map_some]
          rfl
        next => cases hAgain
      next => cases hRun

end Twice

/-! Runs over all tables. -/

/-- Runs over some tables none of which fails make up a run over them. -/
theorem generateTables_of_each {outcomes : List TableOutcome}
    (h : generateEach config stamps kinds fs = (outcomes.map .ok, after)) :
    generateTables config stamps kinds fs = (.ok outcomes, after) := by
  induction kinds generalizing fs outcomes with
  | nil =>
      obtain ⟨hOutcomes, rfl⟩ := Prod.mk.inj h
      rw [List.map_eq_nil_iff.mp hOutcomes.symm]
      rfl
  | cons kind kinds ih =>
      rw [generateEach_cons] at h
      rw [generateTables_cons]
      cases hFirst : generateTable config kind (stamps kind) fs with
      | mk first middle =>
        cases hOthers : generateEach config stamps kinds middle with
        | mk results last =>
          simp only [hFirst, hOthers] at h
          obtain ⟨hResults, rfl⟩ := Prod.mk.inj h
          obtain ⟨outcome, rest, rfl, rfl, rfl⟩ := List.map_eq_cons_iff.mp hResults.symm
          simp only [ih hOthers]

/-- A file system is the same if its tables hold the same and nothing else differs. -/
theorem entryAt?_of_tables (hChanges : ChangesTables warehouse kinds fs after)
    (hTables : ∀ kind ∈ kinds,
      AgreeBelow fs (tableLocation warehouse kind) after (tableLocation warehouse kind))
    (location : Location) : after.entryAt? location = fs.entryAt? location := by
  by_cases hInside : ∃ kind ∈ kinds, tableLocation warehouse kind <+: location
  · obtain ⟨kind, hKind, below, rfl⟩ := hInside
    exact hTables kind hKind below
  · apply hChanges.confined
    intro kind hKind hPrefix
    exact hInside ⟨kind, hKind, (List.prefix_append _ _).trans hPrefix⟩

/-- Results that correspond to each other, none of which is a failure. -/
theorem map_eq_of_results {ε α β γ : Type} {f g : α → Except ε β} {u : β → γ} {as : List α}
    {bs bs' : List β} (h : bs.map .ok = as.map f) (h' : bs'.map .ok = as.map g)
    (hSame : ∀ a ∈ as, ∀ b b', f a = .ok b → g a = .ok b' → u b' = u b) :
    bs'.map u = bs.map u := by
  induction as generalizing bs bs' with
  | nil => rw [List.map_eq_nil_iff.mp h, List.map_eq_nil_iff.mp h']
  | cons a as ih =>
      obtain ⟨b, rest, rfl, hFirst, hRest⟩ := List.map_eq_cons_iff.mp h
      obtain ⟨b', rest', rfl, hFirst', hRest'⟩ := List.map_eq_cons_iff.mp h'
      rw [List.map_cons, List.map_cons, hSame a List.mem_cons_self b b' hFirst.symm hFirst'.symm,
        ih hRest hRest' fun a ha => hSame a (List.mem_cons_of_mem _ ha)]

section Again

variable {outcomes outcomes' : List TableOutcome}

/-- The run over a table alone does not fail if that over all does not. -/
theorem ActsAlone.exists_outcome
    (h : ActsAlone config stamps warehouse kinds fs (outcomes.map .ok) after) (hKind : kind ∈ kinds) :
    ∃ outcome, generateTable config kind (stamps kind) fs =
      (.ok outcome, (generateTable config kind (stamps kind) fs).2) := by
  have hMem := List.mem_map_of_mem (f := fun kind =>
    (generateTable config kind (stamps kind) fs).1) hKind
  rw [← h.results_eq] at hMem
  obtain ⟨outcome, -, hOutcome⟩ := List.mem_map.mp hMem
  exact ⟨outcome, Prod.ext hOutcome.symm rfl⟩

/-- An outcome is that of a run over its table alone. -/
theorem ActsAlone.generateTable_eq_of_mem
    (h : ActsAlone config stamps warehouse kinds fs (outcomes.map .ok) after)
    (hOutcome : outcome ∈ outcomes) (hTable : outcome.table = kind.name) :
    generateTable config kind (stamps kind) fs =
      (.ok outcome, (generateTable config kind (stamps kind) fs).2) := by
  have hMem : (Except.ok outcome : Except Failure TableOutcome) ∈ outcomes.map Except.ok :=
    List.mem_map_of_mem hOutcome
  rw [h.results_eq] at hMem
  obtain ⟨other, -, hOther⟩ := List.mem_map.mp hMem
  obtain rfl := kind_name_injective
    ((table_of_generateTable (Prod.ext hOther rfl)).symm.trans hTable)
  exact Prod.ext hOther rfl

variable (h : IsReached config fs warehouse links) (hAfter : IsReached config after warehouse links)
  (hAlone : ActsAlone config stamps warehouse kinds fs (outcomes.map .ok) after)

include h hAfter hAlone

/-- Runs that find what they left before come to the same and change nothing. -/
theorem generateEach_again (hKinds : kinds.Nodup) :
    ∃ again, generateEach config stamps kinds after = (outcomes.map .ok, again) ∧
      (∀ location, again.entryAt? location = after.entryAt? location) ∧
      again.workingDir = after.workingDir := by
  cases hAgain : generateEach config stamps kinds after with
  | mk results again =>
    obtain ⟨hAlone', -⟩ := hAfter.actsAlone hKinds hAgain
    have hSame (kind : Kind) (hKind : kind ∈ kinds) :
        (generateTable config kind (stamps kind) after).1 =
            (generateTable config kind (stamps kind) fs).1 ∧
          AgreeBelow after (tableLocation warehouse kind)
            (generateTable config kind (stamps kind) after).2 (tableLocation warehouse kind) := by
      obtain ⟨outcome, hRun⟩ := hAlone.exists_outcome hKind
      rw [hRun]
      exact generateTable_again h hAfter hAlone.changes hRun (hAlone.table kind hKind)
    refine ⟨again, ?_, ?_, hAlone'.changes.workingDir⟩
    · rw [hAlone.results_eq, hAlone'.results_eq,
        List.map_congr_left fun kind hKind => (hSame kind hKind).1]
    · exact entryAt?_of_tables hAlone'.changes fun kind hKind =>
        (hSame kind hKind).2.trans (hAlone'.table kind hKind)

variable (hAlone' : ActsAlone config others warehouse kinds after (outcomes'.map .ok) last)

include hAlone'

/-- Runs with other stamps come to the same but for the stamps. -/
theorem map_unstamped_again :
    outcomes'.map TableOutcome.unstamped = outcomes.map TableOutcome.unstamped := by
  refine map_eq_of_results hAlone.results_eq hAlone'.results_eq ?_
  intro kind _ outcome outcome' hRun hAgain
  exact generateTable_restamped h hAfter hAlone.changes (Prod.ext hRun rfl) (Prod.ext hAgain rfl)

/-- The documents that runs with other stamps write differ only in the stamps. -/
theorem exists_documents_again (hKind : kind ∈ kinds) (hOutcome : outcome ∈ outcomes)
    (hTable : outcome.table = kind.name) (hStatus : outcome.status = .written) :
    ∃ documents, documentsOf? config fs kind (stamps kind) = some documents ∧
      IsStored after (documentsLocation warehouse kind) documents ∧
      IsStored last (documentsLocation warehouse kind) (documents.restamped (others kind)) := by
  have hRun := hAlone.generateTable_eq_of_mem hOutcome hTable
  obtain ⟨outcome', hAgain⟩ := hAlone'.exists_outcome hKind
  obtain ⟨documents, _, hDocuments, -, -⟩ := exists_documents_of_written hRun hStatus
  obtain ⟨files, hFiles, rfl⟩ := Option.map_eq_some_iff.mp hDocuments
  have hFinds : FindsSame config fs after kind := findsSame_of_changes h hAfter hAlone.changes
  have hDocuments' : documentsOf? config after kind (others kind) =
      some ((documentsFor config fs kind files (stamps kind)).restamped (others kind)) := by
    rw [documentsOf?_of_recordedFiles? (hFinds.recordedFiles?_eq.trans hFiles),
      documentsFor_of_changes hAlone.changes, documentsFor_restamped]
  exact ⟨_, hDocuments,
    (isStored_of_generateTable h hDocuments hRun).of_agreeBelow (hAlone.table kind hKind),
    (isStored_of_generateTable hAfter hDocuments' hAgain).of_agreeBelow (hAlone'.table kind hKind)⟩

end Again

theorem IsReached.isDir_warehouse (h : IsReached config after warehouse links)
    (hDir : fs.isDir config.warehouse) : after.isDir config.warehouse := by
  obtain ⟨node, hStatus, -⟩ := Scan.exists_status_of_isDir hDir
  obtain ⟨spot, hResolve, -⟩ := exists_resolve_of_status hStatus
  exact h.reaches.isDir_of_accepts h.isDir (accepts_of_resolve hResolve)

/-- A run over a warehouse whose only links are pointers finds the same files afterwards. If it is
done again with the same stamps, it comes to the same and changes nothing. With other stamps the
reports are the same but for the time and the paths of manifests and manifest lists, and so are the
documents of each table but for the fields that the stamp determines. -/
theorem rerun_of_generate {generatedAt : String} {report : Report}
    (hPointers : OnlyPointers fs warehouse) (hLeads : LeadsOnlyTo fs config.warehouse warehouse)
    (h : generate config stamps generatedAt fs = (.ok report, after)) :
    (∀ kind, Scan.ofTable after (config.tableDir kind) = Scan.ofTable fs (config.tableDir kind)) ∧
    (∀ time, ∃ again,
      generate config stamps time after = (.ok { report with generatedAt := time }, again) ∧
        (∀ location, again.entryAt? location = after.entryAt? location) ∧
        again.workingDir = after.workingDir) ∧
    ∀ others time report' last, generate config others time after = (.ok report', last) →
      report'.unstamped = report.unstamped ∧
      ∀ kind outcome, report.table? kind.name = some outcome → outcome.status = .written →
        ∃ documents, documentsOf? config fs kind (stamps kind) = some documents ∧
          IsStored after (documentsLocation warehouse kind) documents ∧
          IsStored last (documentsLocation warehouse kind) (documents.restamped (others kind)) := by
  rcases generate_eq h with ⟨-, failure, hFailure⟩ | ⟨hDir, tables, hRun, hReport⟩
  · cases hFailure
  obtain ⟨outcomes, rfl, rfl⟩ := eq_ok_of_map hReport.symm
  rcases exists_isReached hPointers hLeads hDir with ⟨links, hReached⟩ | hStart
  · obtain ⟨hAlone, hAfter⟩ := hReached.actsAlone (by decide) (generateEach_of_ok hRun)
    refine ⟨fun kind => ?_, fun time => ?_, fun others time report' last hAgain => ?_⟩
    · exact (findsSame_of_changes hReached hAfter hAlone.changes).scan
    · obtain ⟨again, hEach, hSame⟩ := generateEach_again hReached hAfter hAlone (by decide)
      refine ⟨again, ?_, hSame⟩
      rw [generate_apply, if_pos (hAfter.isDir_warehouse hDir), generateTables_of_each hEach]
      rfl
    · rcases generate_eq hAgain with ⟨-, failure, hFailure⟩ | ⟨-, tables, hRun', hReport'⟩
      · cases hFailure
      obtain ⟨outcomes', rfl, rfl⟩ := eq_ok_of_map hReport'.symm
      obtain ⟨hAlone', -⟩ := hAfter.actsAlone (by decide) (generateEach_of_ok hRun')
      constructor
      · have hSame := map_unstamped_again hReached hAfter hAlone hAlone'
        simp only [Report.unstamped, Configuration.report, hSame]
      · intro kind outcome hOutcome hStatus
        exact exists_documents_again hReached hAfter hAlone hAlone' (by cases kind <;> decide)
          (List.mem_of_find?_eq_some hOutcome) (by simpa using List.find?_some hOutcome) hStatus
  · cases hRun.symm.trans (generateTables_of_start? hStart stamps Kind.all)
    have hAgain (others : Kind → Stamp) (time : String) : generate config others time fs =
        (.ok (config.report time (Kind.all.map fun kind =>
          .skipped kind.name .missingTableDir 0)), fs) := by
      rw [generate_apply, if_pos hDir, generateTables_of_start? hStart]
    refine ⟨fun _ => rfl, fun time => ⟨fs, hAgain stamps time, fun _ => rfl, rfl⟩, ?_⟩
    intro others time report' last hLast
    cases hLast.symm.trans (hAgain others time)
    refine ⟨rfl, fun kind outcome hOutcome hStatus => ?_⟩
    obtain ⟨_, -, rfl⟩ := List.mem_map.mp (List.mem_of_find?_eq_some hOutcome)
    cases hStatus

/-- A run over a warehouse with one data file finds that file again afterwards, and a second run
changes nothing. -/
theorem rerun_of_single_run : ∃ report after again documents,
    OnlyPointers (singleFileTree "height=0-9") [] ∧
    LeadsOnlyTo (singleFileTree "height=0-9") (hereConfiguration 0).warehouse [] ∧
    generate (hereConfiguration 0) (fun _ => ⟨0, default, default⟩) ""
      (singleFileTree "height=0-9") = (.ok report, after) ∧
    Scan.ofTable after ((hereConfiguration 0).tableDir .blocks) =
      .ok (.files [hereDataFile "height=0-9" 0]) ∧
    generate (hereConfiguration 0) (fun _ => ⟨0, default, default⟩) "" after =
      (.ok report, again) ∧
    (∀ location, again.entryAt? location = after.entryAt? location) ∧
    IsStored again (documentsLocation [] .blocks) documents := by
  have hDirName : (Name.ofString "height=0-9").Fits 10 :=
    ⟨Name.isProper_ofString (by decide) (by decide) (by decide), by decide, by decide⟩
  have hPointers : OnlyPointers (singleFileTree "height=0-9") [] := by
    intro location target hPrefix hLink
    exact absurd hLink ((isUntouched_singleFileTree "height=0-9").no_link location target hPrefix)
  have hLeads := leadsOnlyTo_here "height=0-9" (show 0 + 1 ≤ maxPath by decide)
  obtain ⟨outcome, rest, after, hRun, hTable, hStatus, -⟩ := generate_here hDirName
    (by decide) (by decide) (show 0 + 10 + 74 ≤ maxPath by decide)
    (fun _ => ⟨0, default, default⟩) ""
  have hOutcome : ((hereConfiguration 0).report "" (outcome :: rest)).table? Kind.blocks.name =
      some outcome := by
    rw [Report.table?, Configuration.report, List.find?_cons_of_pos]
    exact decide_eq_true hTable
  obtain ⟨discovered, hScan, hKept, -⟩ := recordedFiles?_eq_some
    (recordedFiles?_here hDirName (by decide) (by decide) (show 0 + 10 + 24 ≤ maxPath by decide))
  obtain rfl : discovered = [hereDataFile "height=0-9" 0] := hKept
  obtain ⟨hFinds, hAgain, hOthers⟩ := rerun_of_generate hPointers hLeads hRun
  obtain ⟨again, hSecond, hSame, -⟩ := hAgain ""
  obtain ⟨-, hDocuments⟩ := hOthers _ _ _ _ hSecond
  obtain ⟨documents, -, -, hStored⟩ := hDocuments .blocks outcome hOutcome hStatus
  exact ⟨_, after, again, _, hPointers, hLeads, hRun, (hFinds .blocks).trans hScan, hSecond, hSame,
    hStored⟩

end Warehouse

end ExportKit
