import ExportKit.Proofs.Warehouse.Partitions
import ExportKit.Proofs.Warehouse.Slots

/-!
The tables of a warehouse are independent. A run over a table reads and writes nothing but the
directory of that table, so what it does is determined by what it finds there, and runs over several
tables come to the same in any order, also if some of them fail.
-/
namespace ExportKit.Warehouse

open FileSystem
open Table (DataFile Documents Kind Stamp)
open Table.Documents (directoryName pointerFileName versionFileName)

variable {fs fs' middle after after' : FileSystem} {config : Configuration} {kind other : Kind}
  {kinds : List Kind} {stamp : Stamp} {stamps : Kind → Stamp} {tableDir : Path}
  {documents : Documents} {links links' : Nat} {warehouse warehouse' location : Location}

/-! What a run over a table changes. -/

/-- Nothing differs but the directories of the documents of some tables and entries of these. -/
structure ChangesTables (warehouse : Location) (kinds : List Kind) (fs after : FileSystem) :
    Prop where
  entry : ∀ location, (∀ kind ∈ kinds, location ≠ documentsLocation warehouse kind ∧
    ∀ name, location ≠ documentsLocation warehouse kind ++ [name]) →
      after.entryAt? location = fs.entryAt? location
  workingDir : after.workingDir = fs.workingDir

namespace ChangesTables

theorem refl (fs : FileSystem) : ChangesTables warehouse kinds fs fs := ⟨fun _ _ => rfl, rfl⟩

/-- Changes of some tables and then of others are changes of both. -/
theorem trans {others : List Kind} (first : ChangesTables warehouse kinds fs middle)
    (second : ChangesTables warehouse others middle after) :
    ChangesTables warehouse (kinds ++ others) fs after := by
  refine ⟨fun location hLocation => ?_, second.workingDir.trans first.workingDir⟩
  rw [second.entry location fun kind hKind => hLocation kind (List.mem_append_right kinds hKind),
    first.entry location fun kind hKind => hLocation kind (List.mem_append_left others hKind)]

/-- The other tables stay as they are. -/
theorem agreeBelow (h : ChangesTables warehouse kinds fs after) (hKind : kind ∉ kinds) :
    AgreeBelow fs (tableLocation warehouse kind) after (tableLocation warehouse kind) := by
  intro below
  apply h.entry
  intro other hOther
  have hNot (rest : Location) :
      tableLocation warehouse kind ++ below ≠ tableLocation warehouse other ++ rest := by
    intro hEq
    have hPrefix := List.prefix_append (tableLocation warehouse kind) below
    obtain rfl := eq_of_tableLocation hPrefix (hEq ▸ List.prefix_append _ rest)
    exact hKind hOther
  refine ⟨hNot _, fun name => ?_⟩
  rw [documentsLocation, List.append_assoc]
  exact hNot _

/-- The data files stay as they are. -/
theorem agreeBelow_data (h : ChangesTables warehouse kinds fs after) (kind : Kind) :
    AgreeBelow fs (dataLocation warehouse kind) after (dataLocation warehouse kind) := by
  apply AgreeBelow.of_prefix
  intro location hData
  apply h.entry
  intro other _
  constructor
  · rintro rfl
    exact (not_prefix_of_documents (List.prefix_refl _)).2 hData
  · rintro name rfl
    exact (not_prefix_of_documents (List.prefix_append _ _)).2 hData

/-- The directory of a table stays what it is. -/
theorem entry_table (h : ChangesTables warehouse kinds fs after) (kind : Kind) :
    after.entryAt? (tableLocation warehouse kind) = fs.entryAt? (tableLocation warehouse kind) := by
  apply h.entry
  intro other _
  have hLength (rest : Location) (hRest : rest ≠ []) :
      tableLocation warehouse kind ≠ tableLocation warehouse other ++ rest := by
    intro hEq
    have hPos := List.length_pos_iff.mpr hRest
    have hLengths := congrArg List.length hEq
    simp only [tableLocation, List.length_append, List.length_singleton] at hLengths
    omega
  refine ⟨hLength _ (List.cons_ne_nil _ _), fun name => ?_⟩
  rw [documentsLocation, List.append_assoc]
  exact hLength _ (List.cons_ne_nil _ _)

end ChangesTables

/-- Writing the documents of a table changes no other table. -/
theorem ChangesDocuments.changesTables (h : ChangesDocuments warehouse kind fs after) :
    ChangesTables warehouse [kind] fs after := by
  refine ⟨fun location hLocation => ?_, h.workingDir⟩
  obtain ⟨hNe, hBelow⟩ := hLocation kind (List.mem_singleton_self kind)
  exact h.entry location hNe hBelow

/-- A run over a table that writes documents comes to the directory of the table. -/
theorem IsDepot.writes (h : IsDepot config fs warehouse links)
    (hDocuments : documentsOf? config fs kind stamp = some documents) :
    IsNamedBy documents stamp ∧
      Reaches fs (config.tableDir kind) links (tableLocation warehouse kind) ∧
      fs.entryAt? (tableLocation warehouse kind) = some .dir := by
  obtain ⟨files, hFiles, rfl⟩ := Option.map_eq_some_iff.mp hDocuments
  obtain ⟨discovered, hScan, -, -⟩ := recordedFiles?_eq_some hFiles
  have hDir := ((h.isDir_tableDir kind).mp (isDir_of_ofTable hScan)).2
  exact ⟨⟨rfl, rfl⟩, h.tableDir hDir, hDir⟩

/-- Whatever comes of a run over a table, the path of the warehouse leads where it led, and all new
links are pointers. -/
theorem IsDepot.frames_of_generateTable {result : Except Failure TableOutcome}
    (h : IsDepot config fs warehouse links)
    (hRun : generateTable config kind (stamps kind) fs = (result, after)) :
    IsDepot config after warehouse links ∧ Frames warehouse stamps [kind] fs after := by
  obtain ⟨-, hFrames⟩ := Warehouse.frames_of_generateTable (h.inData.no_link_table kind)
    (h.inData.documents kind) (fun _ _ hOther => (hOther.unique h.reaches).2) hRun
  obtain ⟨hReaches, hIsDir⟩ := hFrames.keepsPaths _ _ _ h.reaches h.isDir
  refine ⟨⟨hReaches, hIsDir, fun location target hPrefix hLink => ?_⟩, hFrames⟩
  rcases hFrames.link location target hLink with hLink | hPointer
  · exact h.inData location target hPrefix hLink
  · exact .inl hPointer

/-- Whatever comes of a run over a table, only its documents may differ afterwards. -/
theorem IsDepot.changesDocuments {result : Except Failure TableOutcome}
    (h : IsDepot config fs warehouse links)
    (hRun : generateTable config kind stamp fs = (result, after)) :
    ChangesDocuments warehouse kind fs after := by
  rcases generateTable_cases hRun with ⟨-, -, rfl⟩ | ⟨files, _, hFiles, hWrite, -⟩
  · exact ⟨fun _ _ _ => rfl, rfl⟩
  · obtain ⟨hNamed, hTable, hDir⟩ := h.writes (documentsOf?_of_recordedFiles? hFiles stamp)
    exact (writeSlots_eq hNamed hTable hDir (h.inData.documents kind) hWrite).2

/-- The directories of the tables stay what they are while a run goes over some of them. -/
theorem IsDepot.generateTables {result : Except Failure (List TableOutcome)}
    (h : IsDepot config fs warehouse links)
    (hRun : generateTables config stamps kinds fs = (result, after)) :
    IsDepot config after warehouse links ∧ ∀ kind,
      after.entryAt? (tableLocation warehouse kind) =
        fs.entryAt? (tableLocation warehouse kind) := by
  apply generateTables_induction (fun fs => IsDepot config fs warehouse links)
    (fun fs after => ∀ kind, after.entryAt? (tableLocation warehouse kind) =
      fs.entryAt? (tableLocation warehouse kind)) ?refl ?trans ?table h hRun
  case refl => exact fun _ _ => rfl
  case trans => exact fun _ _ _ hFirst hSecond kind => (hSecond kind).trans (hFirst kind)
  case table =>
    intro kind _ fs result after hDepot hTable
    exact ⟨(hDepot.frames_of_generateTable hTable).1,
      (hDepot.changesDocuments hTable).changesTables.entry_table⟩

/-- A table has its turn in a state with the same tables as at first. -/
theorem IsDepot.isDir_tableDir_atTurn (h : IsDepot config fs warehouse links)
    (stamps : Kind → Stamp) (kind other : Kind) :
    (atTurn config stamps fs kind).isDir (config.tableDir other) ↔
      fs.isDir (config.tableDir other) := by
  obtain ⟨hDepot, hSame⟩ : IsDepot config (atTurn config stamps fs kind) warehouse links ∧
      ∀ kind', (atTurn config stamps fs kind).entryAt? (tableLocation warehouse kind') =
        fs.entryAt? (tableLocation warehouse kind') := h.generateTables rfl
  rw [hDepot.isDir_tableDir, h.isDir_tableDir, hSame]

/-- A run over a table changes no other, and leaves the path of the warehouse as it was. -/
theorem IsReached.generateTable {result : Except Failure TableOutcome}
    (h : IsReached config fs warehouse links)
    (hRun : generateTable config kind stamp fs = (result, after)) :
    IsReached config after warehouse links ∧ ChangesTables warehouse [kind] fs after := by
  obtain ⟨hDepot, hFrames⟩ : _ ∧ Frames warehouse (fun _ => stamp) [kind] fs after :=
    h.isDepot.frames_of_generateTable hRun
  exact ⟨⟨hDepot.reaches, hDepot.isDir, hFrames.onlyPointers h.pointers⟩,
    (h.isDepot.changesDocuments hRun).changesTables⟩

/-! Two runs over a table. -/

/-- Where two tables hold the same, so do the directories of their documents. -/
theorem agreeBelow_documents
    (h : AgreeBelow fs (tableLocation warehouse kind) fs' (tableLocation warehouse' kind)) :
    AgreeBelow fs (documentsLocation warehouse kind) fs' (documentsLocation warehouse' kind) :=
  h.append [Name.ofString directoryName]

theorem Holds.of_agreeBelow {dir dir' : Location} (h : Holds fs dir documents)
    (hAgree : AgreeBelow fs dir fs' dir') : Holds fs' dir' documents := by
  intro name entry hFile
  rw [hAgree, h name entry hFile]

/-- Directories of tables that hold the same still do if their documents become the same. -/
theorem agreeBelow_of_changes
    (hAgree : AgreeBelow fs (tableLocation warehouse kind) fs' (tableLocation warehouse' kind))
    (hChanges : ChangesDocuments warehouse kind fs after)
    (hChanges' : ChangesDocuments warehouse' kind fs' after')
    (hDir : after'.entryAt? (documentsLocation warehouse' kind) =
      after.entryAt? (documentsLocation warehouse kind))
    (hSlots : slotsAt after' (documentsLocation warehouse' kind) =
      slotsAt after (documentsLocation warehouse kind)) :
    AgreeBelow after (tableLocation warehouse kind) after' (tableLocation warehouse' kind) := by
  intro below
  by_cases hSelf : below = [Name.ofString directoryName]
  · subst hSelf
    exact hDir
  by_cases hInside : ∃ name, below = [Name.ofString directoryName, name]
  · obtain ⟨name, rfl⟩ := hInside
    have hName := congrFun hSlots name
    rwa [slotsAt, slotsAt, documentsLocation, documentsLocation, List.append_assoc,
      List.append_assoc] at hName
  have hOutside (warehouse : Location) :
      tableLocation warehouse kind ++ below ≠ documentsLocation warehouse kind ∧
        ∀ name, tableLocation warehouse kind ++ below ≠
          documentsLocation warehouse kind ++ [name] := by
    refine ⟨fun hEq => hSelf (List.append_cancel_left hEq), fun name hEq => hInside ⟨name, ?_⟩⟩
    rw [documentsLocation, List.append_assoc] at hEq
    exact List.append_cancel_left hEq
  rw [hChanges.entry _ (hOutside warehouse).1 (hOutside warehouse).2,
    hChanges'.entry _ (hOutside warehouse').1 (hOutside warehouse').2, hAgree]

/-- Writing the same documents into directories that hold the same comes to the same, and leaves the
same. -/
theorem writeDocuments_congr {result result' : Except Failure WrittenFiles}
    (hNamed : IsNamedBy documents stamp)
    (hReaches : Reaches fs tableDir links (tableLocation warehouse kind))
    (hReaches' : Reaches fs' tableDir links' (tableLocation warehouse' kind))
    (hDir : fs.entryAt? (tableLocation warehouse kind) = some .dir)
    (hPointers : OnlyPointers fs warehouse) (hPointers' : OnlyPointers fs' warehouse')
    (hAgree : AgreeBelow fs (tableLocation warehouse kind) fs' (tableLocation warehouse' kind))
    (hRun : writeDocuments tableDir documents fs = (result, after))
    (hRun' : writeDocuments tableDir documents fs' = (result', after')) :
    result' = result ∧
      AgreeBelow after (tableLocation warehouse kind) after' (tableLocation warehouse' kind) := by
  obtain ⟨hSlots, hChanges⟩ :=
    writeSlots_eq hNamed hReaches hDir (hPointers.documents kind) hRun
  obtain ⟨hSlots', hChanges'⟩ :=
    writeSlots_eq hNamed hReaches' (hAgree.entry_eq.trans hDir) (hPointers'.documents kind) hRun'
  have hDocuments := agreeBelow_documents hAgree
  have hSame : slotsAt fs' (documentsLocation warehouse' kind) =
      slotsAt fs (documentsLocation warehouse kind) := funext fun name => hDocuments [name]
  rw [hSame, hDocuments.entry_eq] at hSlots'
  obtain ⟨hResult, hAfter⟩ := Prod.mk.inj (hSlots'.symm.trans hSlots)
  obtain ⟨hAfterDir, hAfterSlots⟩ := Prod.mk.inj hAfter
  exact ⟨hResult, agreeBelow_of_changes hAgree hChanges hChanges' hAfterDir hAfterSlots⟩

/-- Documents depend on the file system through the working directory alone. -/
theorem documentsFor_congr (hAbsolute : config.absoluteWarehouse fs'.workingPath? =
    config.absoluteWarehouse fs.workingPath?) (files : List DataFile) :
    documentsFor config fs' kind files stamp = documentsFor config fs kind files stamp := by
  rw [documentsFor, documentsFor, hAbsolute]

/-- Runs over a table that find the same come to the same and leave the same. -/
theorem generateTable_congr {result result' : Except Failure TableOutcome}
    (h : IsReached config fs warehouse links) (h' : IsReached config fs' warehouse' links')
    (hAgree : AgreeBelow fs (tableLocation warehouse kind) fs' (tableLocation warehouse' kind))
    (hAlike : FollowsAlike fs (dataLocation warehouse kind) links links')
    (hAbsolute : config.absoluteWarehouse fs'.workingPath? =
      config.absoluteWarehouse fs.workingPath?)
    (hRun : generateTable config kind stamp fs = (result, after))
    (hRun' : generateTable config kind stamp fs' = (result', after')) :
    result' = result ∧
      AgreeBelow after (tableLocation warehouse kind) after' (tableLocation warehouse' kind) := by
  have hData : AgreeBelow fs (dataLocation warehouse kind) fs' (dataLocation warehouse' kind) :=
    hAgree.append [Name.ofString Scan.dataDirName]
  have hFinds := findsSame_of_agreeBelow h h' hAgree.entry_eq hData hAlike
  have hRecorded := hFinds.recordedFiles?_eq
  rcases generateTable_cases hRun with ⟨hNone, rfl, rfl⟩ | ⟨files, written, hFiles, hWrite, rfl⟩
  · rcases generateTable_cases hRun' with ⟨-, rfl, rfl⟩ | ⟨_, _, hFiles', -⟩
    · exact ⟨hFinds.passedOver_eq, hAgree⟩
    · cases hNone.symm.trans (hRecorded.symm.trans hFiles')
  · rcases generateTable_cases hRun' with ⟨hNone, -⟩ | ⟨files', written', hFiles', hWrite', rfl⟩
    · cases hFiles.symm.trans (hRecorded.symm.trans hNone)
    · obtain rfl := Option.some_inj.mp (hFiles.symm.trans (hRecorded.symm.trans hFiles'))
      rw [documentsFor_congr hAbsolute] at hWrite' ⊢
      obtain ⟨hNamed, hTable, hDir⟩ :=
        h.isDepot.writes (documentsOf?_of_recordedFiles? hFiles stamp)
      obtain ⟨rfl, hLast⟩ := writeDocuments_congr hNamed hTable
        (h'.isDepot.tableDir (hAgree.entry_eq.trans hDir)) hDir h.pointers h'.pointers hAgree
        hWrite hWrite'
      rw [hFinds.discoveredFiles_eq]
      exact ⟨rfl, hLast⟩

/-! Runs over several tables. -/

/-- Runs over some tables in turn, whatever comes of each. -/
def generateEach (config : Configuration) (stamps : Kind → Stamp) (kinds : List Kind) :
    StateM FileSystem (List (Except Failure TableOutcome)) :=
  kinds.mapM fun kind => (generateTable config kind (stamps kind)).run

/-- A run over each of some tables goes on with the others, whatever comes of the first. -/
theorem generateEach_cons (stamps : Kind → Stamp) (kind : Kind) (kinds : List Kind)
    (fs : FileSystem) :
    generateEach config stamps (kind :: kinds) fs =
      match generateTable config kind (stamps kind) fs with
      | (result, middle) =>
        match generateEach config stamps kinds middle with
        | (results, after) => (result :: results, after) := by
  rw [generateEach, List.mapM_cons]
  rfl

/-- What runs over several tables come to, if that is for each table what a run over it alone comes
to, with the same left in its directory. -/
structure ActsAlone (config : Configuration) (stamps : Kind → Stamp) (warehouse : Location)
    (kinds : List Kind) (fs : FileSystem) (results : List (Except Failure TableOutcome))
    (after : FileSystem) : Prop where
  results_eq : results = kinds.map fun kind => (generateTable config kind (stamps kind) fs).1
  table : ∀ kind ∈ kinds,
    AgreeBelow (generateTable config kind (stamps kind) fs).2 (tableLocation warehouse kind) after
      (tableLocation warehouse kind)
  changes : ChangesTables warehouse kinds fs after

/-- The path of the warehouse from the root depends on the working directory only if it is
relative. -/
theorem absoluteWarehouse_congr
    (h : config.warehouse.isAbsolute ∨ fs'.workingDir = fs.workingDir) :
    config.absoluteWarehouse fs'.workingPath? = config.absoluteWarehouse fs.workingPath? := by
  rcases h with hAbsolute | hSame
  · simp only [Configuration.absoluteWarehouse, Path.absolute, hAbsolute, if_true]
  · rw [workingPath?, workingPath?, hSame]

/-- A run over a table does the same after runs over others. -/
theorem IsReached.generateTable_of_changes (h : IsReached config fs warehouse links)
    (hMiddle : IsReached config middle warehouse links)
    (hChanges : ChangesTables warehouse kinds fs middle) (hKind : kind ∉ kinds) :
    (Warehouse.generateTable config kind stamp middle).1 =
        (Warehouse.generateTable config kind stamp fs).1 ∧
      AgreeBelow (Warehouse.generateTable config kind stamp fs).2 (tableLocation warehouse kind)
        (Warehouse.generateTable config kind stamp middle).2 (tableLocation warehouse kind) :=
  generateTable_congr h hMiddle (hChanges.agreeBelow hKind) (.inl Iff.rfl)
    (absoluteWarehouse_congr (.inr hChanges.workingDir)) rfl rfl

/-- By induction on the tables: the run over the first changes nothing that those over the others
look at, and these leave alone what it wrote. -/
theorem IsReached.actsAlone {results : List (Except Failure TableOutcome)}
    (h : IsReached config fs warehouse links) (hKinds : kinds.Nodup)
    (hRun : generateEach config stamps kinds fs = (results, after)) :
    ActsAlone config stamps warehouse kinds fs results after ∧
      IsReached config after warehouse links := by
  induction kinds generalizing fs results with
  | nil =>
      cases hRun
      exact ⟨⟨rfl, fun _ hKind => absurd hKind List.not_mem_nil, .refl _⟩, h⟩
  | cons kind rest ih =>
      obtain ⟨hNotMem, hRest⟩ := List.nodup_cons.mp hKinds
      rw [generateEach_cons] at hRun
      cases hFirst : Warehouse.generateTable config kind (stamps kind) fs with
      | mk result middle =>
        cases hOthers : generateEach config stamps rest middle with
        | mk others last =>
          simp only [hFirst, hOthers] at hRun
          cases hRun
          obtain ⟨hMiddle, hChanges⟩ := h.generateTable hFirst
          obtain ⟨hAlone, hLast⟩ := ih hMiddle hRest hOthers
          have hSame (other : Kind) (hOther : other ∈ rest) :
              (Warehouse.generateTable config other (stamps other) middle).1 =
                  (Warehouse.generateTable config other (stamps other) fs).1 ∧
                AgreeBelow (Warehouse.generateTable config other (stamps other) fs).2
                  (tableLocation warehouse other)
                  (Warehouse.generateTable config other (stamps other) middle).2
                  (tableLocation warehouse other) :=
            h.generateTable_of_changes hMiddle hChanges
              (mt List.mem_singleton.mp fun hEq => hNotMem (hEq ▸ hOther))
          refine ⟨⟨?_, fun other hOther => ?_, hChanges.trans hAlone.changes⟩, hLast⟩
          · rw [List.map_cons, hFirst, hAlone.results_eq]
            exact congrArg _ (List.map_congr_left fun other hOther => (hSame other hOther).1)
          · rcases List.mem_cons.mp hOther with rfl | hOther
            · rw [hFirst]
              exact hAlone.changes.agreeBelow hNotMem
            · exact (hSame other hOther).2.trans (hAlone.table other hOther)

/-! Warehouses in a directory that was removed. -/

/-- Where the path of the warehouse leads to a directory, that is the warehouse, or it is a working
directory that was removed. -/
theorem exists_isDepot (hLinks : LinksInData fs warehouse)
    (hLeads : LeadsOnlyTo fs config.warehouse warehouse) (hDir : fs.isDir config.warehouse) :
    (∃ links, IsDepot config fs warehouse links) ∨ fs.start? config.warehouse = none := by
  obtain ⟨node, hStatus, hIsDir⟩ := Scan.exists_status_of_isDir hDir
  obtain ⟨spot, hResolve, hNode⟩ := exists_resolve_of_status hStatus
  by_cases hStart : fs.start? config.warehouse = none
  · exact .inr hStart
  · left
    obtain ⟨links, hReaches, hAt⟩ := exists_reaches_of_resolve hStart hResolve hNode
    rw [hLeads spot hResolve (by simp [hNode])] at hReaches hAt
    refine ⟨links, hReaches, ?_, hLinks⟩
    rw [entryAt?, FileSystem.at?, hAt, Option.map_some, (Node.entry_eq_dir_iff node).mpr hIsDir]

/-- The path of such a warehouse reaches it, unless the walk cannot even start. -/
theorem exists_isReached (hPointers : OnlyPointers fs warehouse)
    (hLeads : LeadsOnlyTo fs config.warehouse warehouse) (hDir : fs.isDir config.warehouse) :
    (∃ links, IsReached config fs warehouse links) ∨ fs.start? config.warehouse = none :=
  (exists_isDepot hPointers.linksInData hLeads hDir).imp_left fun ⟨links, hDepot⟩ =>
    ⟨links, hDepot.reaches, hDepot.isDir, hPointers⟩

/-- There are no tables in a directory that was removed. -/
theorem generateTable_of_start? (h : fs.start? config.warehouse = none) (kind : Kind)
    (stamp : Stamp) : generateTable config kind stamp fs =
      (.ok (.skipped kind.name .missingTableDir 0), fs) := by
  have hMissing : fs.isDir (config.tableDir kind) = false := by
    rw [isDir]
    cases hStatus : fs.status (config.tableDir kind) with
    | error fault => rfl
    | ok node =>
        obtain ⟨spot, hResolve, -⟩ := exists_resolve_of_status hStatus
        exact absurd h (start?_of_resolve_join (Table.fits_kind_name kind).proper hResolve)
  rw [generateTable_apply, ofTable_of_missing hMissing]

/-- Where the walk cannot start, no table is found and nothing changes. -/
theorem generateEach_of_start? (h : fs.start? config.warehouse = none) (stamps : Kind → Stamp)
    (kinds : List Kind) : generateEach config stamps kinds fs =
      (kinds.map fun kind => (generateTable config kind (stamps kind) fs).1, fs) := by
  induction kinds with
  | nil => rfl
  | cons kind kinds ih =>
      rw [generateEach_cons, List.map_cons]
      simp only [generateTable_of_start? h kind, ih]

/-- A run over a warehouse in such a directory passes over all tables. -/
theorem generateTables_of_start? (h : fs.start? config.warehouse = none) (stamps : Kind → Stamp)
    (kinds : List Kind) : generateTables config stamps kinds fs =
      (.ok (kinds.map fun kind => .skipped kind.name .missingTableDir 0), fs) := by
  induction kinds with
  | nil => rfl
  | cons kind kinds ih =>
      rw [generateTables_cons, generateTable_of_start? h]
      simp only [ih, List.map_cons]

/-- Runs over different tables act as runs over each of them alone. -/
theorem actsAlone_of_leadsOnlyTo (hPointers : OnlyPointers fs warehouse)
    (hLeads : LeadsOnlyTo fs config.warehouse warehouse) (hDir : fs.isDir config.warehouse)
    (hKinds : kinds.Nodup) {results : List (Except Failure TableOutcome)}
    (hRun : generateEach config stamps kinds fs = (results, after)) :
    ActsAlone config stamps warehouse kinds fs results after := by
  rcases exists_isReached hPointers hLeads hDir with ⟨links, hReached⟩ | hStart
  · exact (hReached.actsAlone hKinds hRun).1
  · cases hRun.symm.trans (generateEach_of_start? hStart stamps kinds)
    refine ⟨rfl, fun kind _ => ?_, .refl _⟩
    rw [generateTable_of_start? hStart]
    exact .refl _ _

/-! Independence. -/

/-- The path of the warehouse leads to a directory without other links than pointers. -/
structure IsWarehouse (config : Configuration) (fs : FileSystem) (warehouse : Location) : Prop where
  pointers : OnlyPointers fs warehouse
  leads : LeadsOnlyTo fs config.warehouse warehouse
  isDir : fs.isDir config.warehouse

/-- The path follows as many links as may be followed. -/
def SpendsLinks (fs : FileSystem) (path : Path) : Prop := ∃ location, Reaches fs path 0 location

/-- All links are spent just if none is left at the warehouse. -/
theorem IsReached.spendsLinks_iff (h : IsReached config fs warehouse links) :
    SpendsLinks fs config.warehouse ↔ links = 0 := by
  constructor
  · rintro ⟨location, hReaches⟩
    exact (h.reaches.unique hReaches).1
  · rintro rfl
    exact ⟨warehouse, h.reaches⟩

/-- A walk starts at the same place for an absolute path, or in the same working directory. -/
theorem start?_congr {path : Path} (h : path.isAbsolute ∨ fs'.workingDir = fs.workingDir) :
    fs'.start? path = fs.start? path := by
  rcases h with hAbsolute | hSame
  · rw [start?, start?, if_pos hAbsolute, if_pos hAbsolute]
  · rw [start?, start?, hSame]

/-! A table with a pointer among its partitions, reached along a path that winds through a link. -/

def pointedData : Node :=
  .dir [(Name.ofString pointerFileName, .link (.ofString versionFileName)),
    (Name.ofString versionFileName, .dir [(Name.ofString "a.parquet", .file [])])]

def pointedTable : Node := .dir [(Name.ofString Scan.dataDirName, pointedData)]

/-- A warehouse with this table and others, beside a link to the directory that both are in. -/
def pointedEntries (others : List (Name × Node)) : List (Name × Node) :=
  [(Name.ofString "l", .link (.ofString ".")),
    (Name.ofString "w", .dir ((Name.ofString Kind.tags.name, pointedTable) :: others))]

/-- The warehouse is in the root directory. -/
def shallowTree (others : List (Name × Node)) : FileSystem where
  rootEntries := pointedEntries others
  workingDir := .existing []
  output := []

/-- The warehouse is one directory further down, which has the name that the link has. -/
def deepTree : FileSystem where
  rootEntries := [(Name.ofString "l", .dir (pointedEntries []))]
  workingDir := .existing []
  output := []

/-- A path that has the name of the link once and `n` times more. -/
def windingPath : Nat → Path
  | 0 => (hereConfiguration 0).warehouse.child "l"
  | n + 1 => (windingPath n).child "l"

/-- A run that comes to the warehouse along such a path, and inspects files. -/
def windingConfiguration (n : Nat) : Configuration :=
  { Configuration.standard with warehouse := (windingPath n).child "w", inspectParquet := true }

section Winding

variable {path : Path} {others : List (Name × Node)} {hall : Location} {n : Nat}

theorem fits_loop : (Name.ofString "l").Fits 1 := Name.fits_ofString (by decide)

theorem fits_hall : (Name.ofString "w").Fits 1 := Name.fits_ofString (by decide)

theorem fits_dataFileName : (Name.ofString "a.parquet").Fits 9 := Name.fits_ofString (by decide)

/-- To go through the loop costs a link and leads nowhere else. -/
theorem reaches_loop (h : Reaches fs path (links + 1) hall) (hDir : fs.entryAt? hall = some .dir)
    (hLoop : fs.entryAt? (hall ++ [Name.ofString "l"]) = some (.link (.ofString "."))) :
    Reaches fs (path.child "l") links hall := by
  have hProper := fits_loop.proper
  obtain ⟨start, names, hStart, hFound, hLeads⟩ := h
  refine ⟨start, names ++ [Name.ofString "l"], ?_, hFound, hLeads.trans ?_⟩
  · rw [← Path.join_ofString, start?_join hProper, hStart, Option.map_some]
  · exact .link hProper.ne_dot hProper.ne_dots (Nat.le_trans fits_loop.length_le (by decide)) hLoop
      (.here hDir (.nil _ _))

/-- Each time one more link is followed, and the path is where it was. -/
theorem reaches_windingPath (h : Reaches fs (windingPath 0) (links + n) hall)
    (hDir : fs.entryAt? hall = some .dir)
    (hLoop : fs.entryAt? (hall ++ [Name.ofString "l"]) = some (.link (.ofString "."))) :
    Reaches fs (windingPath n) links hall := by
  induction n generalizing links with
  | zero => exact h
  | succ n ih => exact reaches_loop (ih (by rwa [Nat.add_right_comm])) hDir hLoop

/-- Each name of the link is followed on the way to the root directory. -/
theorem reaches_shallowTree (hLinks : links + n + 1 = maxLinks) (others : List (Name × Node)) :
    Reaches (shallowTree others) (windingPath n) links [] := by
  have hHere := reaches_here (show (shallowTree others).workingDir = .existing [] from rfl) 0
  exact reaches_windingPath (reaches_loop (hLinks ▸ hHere) rfl rfl) rfl rfl

/-- One link less is followed if the first name is that of a directory. -/
theorem reaches_deepTree (hLinks : links + n = maxLinks) :
    Reaches deepTree (windingPath n) links [Name.ofString "l"] := by
  have hHere := reaches_here (show deepTree.workingDir = .existing [] from rfl) 0
  have hOuter : deepTree.entryAt? ([] ++ [Name.ofString "l"]) = some .dir := rfl
  have hFirst := hHere.join fits_loop.proper (Nat.le_trans fits_loop.length_le (by decide)) hOuter
    (by simp)
  exact reaches_windingPath (hLinks ▸ hFirst) rfl rfl

/-- The path is far from being too long. -/
theorem accepts_winding :
    Accepts (((((windingConfiguration 39).tableDir .tags).child Scan.dataDirName).child
      versionFileName).child "a.parquet") :=
  ⟨by decide +kernel, by decide +kernel, by decide +kernel⟩

/-- What stands at a location in a directory stands at or below one of its entries. -/
theorem exists_mem_of_at? {entries : List (Name × Node)} {node : Node}
    (h : (Node.dir entries).at? location = some node) :
    node = .dir entries ∨ ∃ name child rest, location = name :: rest ∧ (name, child) ∈ entries ∧
      child.at? rest = some node := by
  cases location with
  | nil => exact .inl (Option.some_inj.mp h).symm
  | cons name rest =>
      rw [Node.at?, Option.bind_eq_some_iff] at h
      obtain ⟨child, hChild, hRest⟩ := h
      exact .inr ⟨name, child, rest, rfl, Node.mem_of_child? hChild, hRest⟩

/-- The pointer is the only link in the table. -/
theorem isPointer_of_pointedTable {above : Location} {target : Path}
    (h : pointedTable.at? location = some (.link target)) : IsPointer (above ++ location) target := by
  rcases exists_mem_of_at? h with hNode | ⟨first, data, inTable, rfl, hData, h⟩
  · cases hNode
  obtain ⟨-, rfl⟩ := Prod.mk.inj (List.mem_singleton.mp hData)
  rcases exists_mem_of_at? h with hNode | ⟨second, entry, inData, rfl, hEntry, h⟩
  · cases hNode
  rcases List.mem_cons.mp hEntry with hPointer | hVersion
  · obtain ⟨rfl, rfl⟩ := Prod.mk.inj hPointer
    cases inData with
    | nil =>
        cases h
        exact ⟨by simp, rfl⟩
    | cons => cases h
  · obtain ⟨rfl, rfl⟩ := Prod.mk.inj (List.mem_singleton.mp hVersion)
    rcases exists_mem_of_at? h with hNode | ⟨third, file, inside, rfl, hFile, h⟩
    · cases hNode
    obtain ⟨rfl, rfl⟩ := Prod.mk.inj (List.mem_singleton.mp hFile)
    cases inside with
    | nil => cases h
    | cons => cases h

/-- A path that reaches a location leads only there. -/
theorem leadsOnlyTo_of_reaches {path : Path} (h : Reaches fs path links location) :
    LeadsOnlyTo fs path location := by
  intro spot hSpot hSome
  obtain ⟨start, names, hStart, -⟩ := id h
  obtain ⟨node, hNode⟩ := Option.ne_none_iff_exists'.mp hSome
  obtain ⟨_, hOther, -⟩ := exists_reaches_of_resolve (by simp [hStart]) hSpot hNode
  exact (hOther.unique h).2

/-- The directory with such a table is a warehouse if the others are empty. -/
theorem isWarehouse_winding (hReaches : Reaches fs (windingPath n) links hall)
    (hHall : fs.at? hall = some (.dir (pointedEntries others)))
    (hOthers : ∀ entry ∈ others, entry.2 = .dir [])
    (hAccepts : Accepts (windingConfiguration n).warehouse) :
    IsWarehouse (windingConfiguration n) fs (hall ++ [Name.ofString "w"]) := by
  obtain ⟨hStatus, hWarehouse, hNode⟩ := status_child hReaches hHall rfl
    (fun _ hLink => by cases hLink) (fits_hall.mono (by decide)) hAccepts
  refine ⟨?_, leadsOnlyTo_of_reaches hWarehouse, isDir_of_status hStatus⟩
  rintro _ target ⟨below, rfl⟩ hLink
  rw [entryAt?, FileSystem.at?, Node.at?_append, show fs.root.at? _ = _ from hNode, Option.bind_some,
    Option.map_eq_some_iff] at hLink
  obtain ⟨node, hFound, hEntry⟩ := hLink
  obtain rfl : node = .link target := by cases node <;> cases hEntry; rfl
  rcases exists_mem_of_at? hFound with hNode | ⟨name, child, rest, rfl, hChild, hRest⟩
  · cases hNode
  rcases List.mem_cons.mp hChild with hTable | hOther
  · obtain ⟨-, rfl⟩ := Prod.mk.inj hTable
    rw [List.append_cons]
    exact isPointer_of_pointedTable hRest
  · obtain rfl := hOthers _ hOther
    cases rest <;> cases hRest

/-- Two names in increasing order are listed in that order. -/
theorem names_pair {first second : Name} {child other : Node} (hFirst : first.Fits maxName)
    (hSecond : second.Fits maxName) (hLt : compare first second = .lt) :
    (Node.dir [(first, child), (second, other)]).names = [first, second] := by
  have hNe : (second == first) = false := by
    rw [beq_eq_false_iff_ne]
    rintro rfl
    simp at hLt
  have hNames : (Node.dir [(first, child), (second, other)]).names =
      [first, second].mergeSort fun a b => (compare a b).isLE := by
    simp [Node.names, Node.entries, isValid_of_fits hFirst, isValid_of_fits hSecond, List.eraseDups_cons, hNe]
  rw [hNames, List.mergeSort_of_pairwise]
  simp [hLt]

/-- A table is passed over if none of its files has a footer. -/
theorem generateTable_of_unreadable {files : List DataFile} (stamp : Stamp)
    (hInspect : config.inspectParquet = true) (hIsDir : fs.isDir (config.tableDir kind))
    (hDataDir : fs.isDir ((config.tableDir kind).child Scan.dataDirName))
    (hFiles : Scan.dataFiles fs ((config.tableDir kind).child Scan.dataDirName) = .ok files)
    (hNe : files ≠ []) (hUnreadable : ∀ file ∈ files, inspectFile? fs kind file = none) :
    generateTable config kind stamp fs =
      (.ok (.skipped kind.name .noReadableFiles files.length), fs) := by
  obtain ⟨file, rest, rfl⟩ := List.exists_cons_of_ne_nil hNe
  have hScan : Scan.ofTable fs (config.tableDir kind) = .ok (.files (file :: rest)) := by
    rw [ofTable_of_isDir hIsDir, if_pos hDataDir, hFiles]
    rfl
  have hKept : keptFiles config fs kind (file :: rest) = [] := by
    rw [keptFiles, if_pos hInspect]
    exact List.filterMap_eq_nil_iff.mpr hUnreadable
  rw [generateTable_apply, hScan]
  simp only [generateFrom, Activity.get_bind_apply, hKept]
  rfl

/-- A file that is found in a partition and has no footer, as it is empty. -/
theorem exists_unreadable {dataDir : Path} {dirName : String}
    (hVisible : dirName.toList.head? ≠ some '.')
    (hDir : fs.status (dataDir.child dirName) =
      .ok (.dir [(Name.ofString "a.parquet", .file [])]))
    (hFile : fs.status ((dataDir.child dirName).child "a.parquet") = .ok (.file [])) :
    ∃ file, Scan.partitionFiles fs dataDir (Name.ofString dirName) = .ok [file] ∧
      inspectFile? fs kind file = none := by
  refine ⟨_, partitionFiles_single hVisible (fits_dataFileName.mono (by decide))
    ⟨by decide, by decide⟩ hDir hFile, ?_⟩
  simp only [inspectFile?, readFooter, hFile]
  rfl

/-- The partition is found, and the pointer is followed to it if a link is left to follow. -/
theorem exists_files_of_pointedData {dataDir : Path} (hReaches : Reaches fs dataDir links location)
    (hNode : fs.at? location = some pointedData) (hList : fs.listDir dataDir = .ok pointedData.names)
    (hAccepts : Accepts ((dataDir.child versionFileName).child "a.parquet")) :
    ∃ files, Scan.dataFiles fs dataDir = .ok files ∧ files.length = (if links = 0 then 1 else 2) ∧
      ∀ file ∈ files, inspectFile? fs kind file = none := by
  have hFile := fits_dataFileName.mono (show 9 ≤ maxName by decide)
  have hVersion := Table.fits_versionFileName.mono (show 16 ≤ maxName by decide)
  have hPointer := Table.fits_pointerFileName.mono (show 13 ≤ maxName by decide)
  have hVersionAccepts : Accepts (dataDir.child versionFileName) :=
    accepts_of_join hFile.proper (Path.bytes_join_ne_nil hVersion.proper _) hAccepts
  have hDataAccepts : 0 ∉ dataDir.bytes := fun hZero => hVersionAccepts.not_mem_zero
    ((Path.mem_bytes_join hVersion.proper _ (by decide)).mpr (.inl hZero))
  -- The name of the pointer is shorter than that of the partition.
  have hLength := hAccepts.length_le
  have hJoin := Path.length_join_join hVersion.proper hFile.proper dataDir
  have hJoinVersion := (Path.length_join hVersion.proper dataDir).1
  have hJoinPointer := length_join_le Table.fits_pointerFileName dataDir
  have hVersionLength : (Name.ofString versionFileName).length = 16 := by decide
  have hFileLength : (Name.ofString "a.parquet").length = 9 := by decide
  simp only [Path.join_ofString] at hJoin hJoinVersion hJoinPointer
  have hLinkAccepts : Accepts (dataDir.child pointerFileName) :=
    accepts_join hDataAccepts Table.fits_pointerFileName (by omega)
  have hPointerAccepts : Accepts ((dataDir.child pointerFileName).child "a.parquet") :=
    accepts_join hLinkAccepts.not_mem_zero fits_dataFileName (by omega)
  rw [pointedData, names_pair hPointer hVersion (by decide)] at hList
  obtain ⟨hVersionStatus, hInside, hVersionNode⟩ := status_child hReaches hNode rfl
    (fun _ hLink => by cases hLink) hVersion hVersionAccepts
  obtain ⟨hFileStatus, -, -⟩ := status_child hInside hVersionNode List.lookup_cons_self
    (fun _ hLink => by cases hLink) hFile hAccepts
  obtain ⟨file, hPartition, hUnreadable⟩ := exists_unreadable (by decide) hVersionStatus hFileStatus
  have hDir : fs.entryAt? location = some .dir := by
    rw [entryAt?, hNode]
    rfl
  have hLink : fs.entryAt? (location ++ [Name.ofString pointerFileName]) =
      some (.link (.ofString versionFileName)) := by
    rw [entryAt?_child_of_at? hNode]
    rfl
  have hVersionEntry : fs.entryAt? (location ++ [Name.ofString versionFileName]) = some .dir := by
    rw [entryAt?, hVersionNode]
    rfl
  have hStatus : fs.status (dataDir.child pointerFileName) = _ :=
    hReaches.status_link hDir hPointer.proper hPointer.length_le hLinkAccepts hLink
      isBeside_versionFileName (by simp [hVersionEntry])
  by_cases hZero : links = 0
  · rw [if_pos hZero] at hStatus ⊢
    have hNotDir : ¬fs.isDir (dataDir.child pointerFileName) := by
      rw [isDir, hStatus]
      simp
    refine ⟨[file], ?_, rfl, by simpa using hUnreadable⟩
    exact bind_eq_ok.mpr ⟨_, Failure.ofOperation_eq_ok.mpr hList, bind_eq_ok.mpr
      ⟨_, mapM_cons_eq_ok.mpr ⟨_, _, Scan.partitionFiles_of_not_isDir hNotDir,
        mapM_cons_eq_ok.mpr ⟨_, [], hPartition, rfl, rfl⟩, rfl⟩, rfl⟩⟩
  · obtain ⟨links, rfl⟩ := Nat.exists_eq_succ_of_ne_zero hZero
    rw [if_neg hZero, hVersionNode] at hStatus
    rw [if_neg hZero]
    have hThrough := hReaches.join_link hPointer.proper hPointer.length_le hLink
      isBeside_versionFileName hVersionEntry (by simp)
    obtain ⟨hAgainStatus, -, -⟩ := status_child hThrough hVersionNode List.lookup_cons_self
      (fun _ hLink => by cases hLink) hFile hPointerAccepts
    obtain ⟨again, hAgain, hAgainUnreadable⟩ := exists_unreadable (by decide) hStatus hAgainStatus
    refine ⟨[again, file], ?_, rfl, by simpa using ⟨hAgainUnreadable, hUnreadable⟩⟩
    exact bind_eq_ok.mpr ⟨_, Failure.ofOperation_eq_ok.mpr hList, bind_eq_ok.mpr
      ⟨_, mapM_cons_eq_ok.mpr ⟨_, _, hAgain,
        mapM_cons_eq_ok.mpr ⟨_, [], hPartition, rfl, rfl⟩, rfl⟩, rfl⟩⟩

/-- The data directory at the end of the winding path is found. -/
theorem dataDir_winding (hReaches : Reaches fs (windingPath n) links hall)
    (hHall : fs.at? hall = some (.dir (pointedEntries others)))
    (hAccepts : Accepts (((windingConfiguration n).tableDir .tags).child Scan.dataDirName)) :
    fs.isDir ((windingConfiguration n).tableDir .tags) ∧
      fs.isDir (((windingConfiguration n).tableDir .tags).child Scan.dataDirName) ∧
      fs.listDir (((windingConfiguration n).tableDir .tags).child Scan.dataDirName) =
        .ok pointedData.names ∧
      ∃ location, Reaches fs (((windingConfiguration n).tableDir .tags).child Scan.dataDirName)
        links location ∧ fs.at? location = some pointedData := by
  have hKind := (Table.fits_kind_name .tags).mono (show 12 ≤ maxName by decide)
  have hTableAccepts := accepts_of_join isProper_dataDirName
    (Path.bytes_join_ne_nil hKind.proper _) hAccepts
  have hWarehouseAccepts := accepts_of_join hKind.proper
    (Path.bytes_join_ne_nil fits_hall.proper _) hTableAccepts
  obtain ⟨-, hWarehouse, hWarehouseNode⟩ := status_child hReaches hHall rfl
    (fun _ hLink => by cases hLink) (fits_hall.mono (by decide)) hWarehouseAccepts
  obtain ⟨hTableStatus, hTable, hTableNode⟩ := status_child hWarehouse hWarehouseNode
    List.lookup_cons_self (fun _ hLink => by cases hLink) hKind hTableAccepts
  obtain ⟨hDataStatus, hData, hDataNode⟩ := status_child hTable hTableNode
    List.lookup_cons_self (fun _ hLink => by cases hLink) (fits_dataDirName.mono (by decide))
    hAccepts
  exact ⟨isDir_of_status hTableStatus, isDir_of_status hDataStatus,
    Scan.listDir_of_status hDataStatus rfl, _, hData, hDataNode⟩

/-- The pointer is passed over if no link is left to follow. Otherwise what is found through it
counts once more. -/
theorem generateTable_winding (hReaches : Reaches fs (windingPath n) links hall)
    (hHall : fs.at? hall = some (.dir (pointedEntries others)))
    (hAccepts : Accepts (((((windingConfiguration n).tableDir .tags).child
      Scan.dataDirName).child versionFileName).child "a.parquet")) (stamp : Stamp) :
    generateTable (windingConfiguration n) .tags stamp fs =
      (.ok (.skipped Kind.tags.name .noReadableFiles (if links = 0 then 1 else 2)), fs) := by
  have hVersion := Table.fits_versionFileName.proper
  have hVersionAccepts := accepts_of_join fits_dataFileName.proper
    (Path.bytes_join_ne_nil hVersion _) hAccepts
  have hDataAccepts := accepts_of_join hVersion
    (Path.bytes_join_ne_nil isProper_dataDirName _) hVersionAccepts
  obtain ⟨hIsDir, hDataDir, hList, location, hData, hNode⟩ :=
    dataDir_winding hReaches hHall hDataAccepts
  obtain ⟨files, hFiles, hLength, hUnreadable⟩ :=
    exists_files_of_pointedData hData hNode hList hAccepts
  have hNe : files ≠ [] := by
    rintro rfl
    split at hLength <;> cases hLength
  rw [generateTable_of_unreadable stamp rfl hIsDir hDataDir hFiles hNe hUnreadable, hLength]

end Winding

/-- What a run over a table comes to, and what it leaves in the directory of the table, is
determined by what this directory holds, whatever the other tables hold and wherever the warehouse
is. It makes a difference that no more links may be followed on the way only where a pointer stands
among the partitions. So runs over the tables in any order come to the same for each of them. -/
theorem generateTable_independent (h : IsWarehouse config fs warehouse)
    (h' : IsWarehouse config fs' warehouse')
    (hWorkingDir : config.warehouse.isAbsolute ∨ fs'.workingDir = fs.workingDir)
    (hTable : AgreeBelow fs (tableLocation warehouse kind) fs' (tableLocation warehouse' kind))
    (hLinks : (SpendsLinks fs config.warehouse ↔ SpendsLinks fs' config.warehouse) ∨
      ∀ target, fs.entryAt? (dataLocation warehouse kind ++ [Name.ofString pointerFileName]) ≠
        some (.link target)) :
    (∀ stamp, (generateTable config kind stamp fs').1 = (generateTable config kind stamp fs).1 ∧
      AgreeBelow (generateTable config kind stamp fs).2 (tableLocation warehouse kind)
        (generateTable config kind stamp fs').2 (tableLocation warehouse' kind)) ∧
    ∀ order : List Kind, order.Perm Kind.all → ∀ stamps : Kind → Stamp,
      ActsAlone config stamps warehouse order fs (generateEach config stamps order fs).1
        (generateEach config stamps order fs).2 := by
  constructor
  · intro stamp
    have hStart := start?_congr hWorkingDir
    rcases exists_isReached h.pointers h.leads h.isDir with ⟨links, hReached⟩ | hNone
    · rcases exists_isReached h'.pointers h'.leads h'.isDir with ⟨links', hReached'⟩ | hNone'
      · have hAlike : FollowsAlike fs (dataLocation warehouse kind) links links' := by
          rwa [hReached.spendsLinks_iff, hReached'.spendsLinks_iff] at hLinks
        exact generateTable_congr hReached hReached' hTable hAlike
          (absoluteWarehouse_congr hWorkingDir) rfl rfl
      · obtain ⟨start, names, hSome, -⟩ := hReached.reaches
        cases hSome.symm.trans (hStart.symm.trans hNone')
    · rw [generateTable_of_start? hNone, generateTable_of_start? (hStart.trans hNone)]
      exact ⟨rfl, hTable⟩
  · intro order hOrder stamps
    have hNodup : order.Nodup := hOrder.nodup_iff.mpr (by decide)
    exact actsAlone_of_leadsOnlyTo h.pointers h.leads h.isDir hNodup rfl

theorem isWarehouse_shallowTree (others : List (Name × Node))
    (hOthers : ∀ entry ∈ others, entry.2 = .dir []) :
    IsWarehouse (windingConfiguration 39) (shallowTree others) [Name.ofString "w"] :=
  isWarehouse_winding (reaches_shallowTree (show 0 + 39 + 1 = maxLinks from rfl) others) rfl hOthers
    ⟨by decide +kernel, by decide +kernel, by decide +kernel⟩

theorem isWarehouse_deepTree :
    IsWarehouse (windingConfiguration 39) deepTree [Name.ofString "l", Name.ofString "w"] :=
  isWarehouse_winding (reaches_deepTree (show 1 + 39 = maxLinks from rfl)) rfl (by simp)
    ⟨by decide +kernel, by decide +kernel, by decide +kernel⟩

/-- The path spends all links if it winds often enough. -/
theorem spendsLinks_shallowTree {n : Nat} (hLinks : 0 + n + 1 = maxLinks) (others : List (Name × Node)) :
    SpendsLinks (shallowTree others) (windingConfiguration n).warehouse := by
  have hHall : (shallowTree others).entryAt? ([] ++ [Name.ofString "w"]) = some .dir := rfl
  exact ⟨_, (reaches_shallowTree hLinks others).join fits_hall.proper
    (Nat.le_trans fits_hall.length_le (by decide)) hHall (by simp)⟩

/-- In the shallow warehouse the pointer cannot be followed, and one data file is found. -/
theorem generateTable_shallowTree (others : List (Name × Node)) (stamp : Stamp) :
    generateTable (windingConfiguration 39) .tags stamp (shallowTree others) =
      (.ok (.skipped Kind.tags.name .noReadableFiles 1), shallowTree others) := by
  have hReaches : Reaches (shallowTree others) (windingPath 39) 0 [] :=
    reaches_shallowTree rfl others
  rw [generateTable_winding hReaches rfl accepts_winding, if_pos rfl]

/-- In the deep warehouse the pointer can be followed, and both data files are found. -/
theorem generateTable_deepTree (stamp : Stamp) :
    generateTable (windingConfiguration 39) .tags stamp deepTree =
      (.ok (.skipped Kind.tags.name .noReadableFiles 2), deepTree) := by
  have hReaches : Reaches deepTree (windingPath 39) 1 [Name.ofString "l"] := reaches_deepTree rfl
  rw [generateTable_winding hReaches rfl accepts_winding, if_neg Nat.one_ne_zero]

theorem isWarehouse_partitionTree {contents : Kind → Option (List (Name × Node))}
    (hFiles : AreFiles contents) : IsWarehouse inspecting (partitionTree contents) [] := by
  refine ⟨fun location target hPrefix hLink => ?_,
    leadsOnlyTo_of_reaches (isDepot_partitionTree contents).reaches, isDir_inspecting contents⟩
  exact absurd hLink ((isUntouched_partitionTree hFiles).no_link location target hPrefix)

/-- Blocks with a file that can be read. -/
def blocksTree : FileSystem := partitionTree (withBlocks readableEntries none)

def blocksAndTagsTree : FileSystem :=
  partitionTree (withBlocks readableEntries (some readableEntries))

/-- The documents of the blocks are written where there are no tags. -/
theorem exists_written_blocksTree (stamp : Stamp) : ∃ documents outcome after,
    documentsOf? inspecting blocksTree .blocks stamp = some documents ∧
    generateTable inspecting .blocks stamp blocksTree = (.ok outcome, after) ∧
    outcome.status = .written ∧ Holds after (documentsLocation [] .blocks) documents := by
  have hFiles := areFiles_withBlocks (.inl rfl) (.inl rfl)
  have hServed : IsServed inspecting blocksTree [] := isServed_partitionTree hFiles
  obtain ⟨documents, hDocuments⟩ : ∃ documents,
      documentsOf? inspecting blocksTree .blocks stamp = some documents :=
    exists_documents_sample hFiles rfl (.inl rfl) stamp
  obtain ⟨outcome, after, hRun, hStatus, -, hWritten⟩ :=
    generateTable_isWritten hServed hasRoom_inspecting hDocuments
  exact ⟨documents, outcome, after, hDocuments, hRun, hStatus, hWritten.holds⟩

/-- A directory for another table makes no difference to a table, although a pointer stands among
its partitions and no link is left to follow. Neither do tags to blocks whose documents are written,
and runs over these tables in another order act as runs over each of them alone. -/
theorem independent_of_blocks :
    (∃ stamp blocks,
      IsWarehouse (windingConfiguration 39) (shallowTree []) [Name.ofString "w"] ∧
      IsWarehouse (windingConfiguration 39) (shallowTree [(Name.ofString Kind.blocks.name, blocks)])
        [Name.ofString "w"] ∧
      AgreeBelow (shallowTree []) (tableLocation [Name.ofString "w"] .tags)
        (shallowTree [(Name.ofString Kind.blocks.name, blocks)])
        (tableLocation [Name.ofString "w"] .tags) ∧
      (generateTable (windingConfiguration 39) .tags stamp
        (shallowTree [(Name.ofString Kind.blocks.name, blocks)])).1 =
          .ok (.skipped Kind.tags.name .noReadableFiles 1)) ∧
    ∃ documents outcome after,
      IsWarehouse inspecting blocksTree [] ∧ IsWarehouse inspecting blocksAndTagsTree [] ∧
      AgreeBelow blocksTree (tableLocation [] .blocks) blocksAndTagsTree
        (tableLocation [] .blocks) ∧
      documentsOf? inspecting blocksTree .blocks ⟨0, default, default⟩ = some documents ∧
      generateTable inspecting .blocks ⟨0, default, default⟩ blocksAndTagsTree =
        (.ok outcome, after) ∧
      outcome.status = .written ∧ Holds after (documentsLocation [] .blocks) documents ∧
      [Kind.tags, .blocks, .transactions].Perm Kind.all ∧
      ActsAlone inspecting (fun _ => ⟨0, default, default⟩) [] [.tags, .blocks, .transactions]
        blocksAndTagsTree
        (generateEach inspecting (fun _ => ⟨0, default, default⟩) [.tags, .blocks, .transactions]
          blocksAndTagsTree).1
        (generateEach inspecting (fun _ => ⟨0, default, default⟩) [.tags, .blocks, .transactions]
          blocksAndTagsTree).2 := by
  constructor
  · have hFirst := isWarehouse_shallowTree [] (by simp)
    have hSecond := isWarehouse_shallowTree [(Name.ofString Kind.blocks.name, .dir [])] (by simp)
    have hTable : AgreeBelow (shallowTree []) (tableLocation [Name.ofString "w"] .tags)
        (shallowTree [(Name.ofString Kind.blocks.name, .dir [])])
        (tableLocation [Name.ofString "w"] .tags) := .of_at? rfl rfl
    obtain ⟨hRuns, -⟩ := generateTable_independent hFirst hSecond (.inr rfl) hTable
      (.inl (iff_of_true (spendsLinks_shallowTree rfl _) (spendsLinks_shallowTree rfl _)))
    refine ⟨⟨0, default, default⟩, .dir [], hFirst, hSecond, hTable, ?_⟩
    rw [(hRuns ⟨0, default, default⟩).1, generateTable_shallowTree]
  · have hFiles := areFiles_withBlocks (.inl rfl) (.inl rfl)
    have hFirst : IsWarehouse inspecting blocksTree [] := isWarehouse_partitionTree hFiles
    have hSecond : IsWarehouse inspecting blocksAndTagsTree [] :=
      isWarehouse_partitionTree (areFiles_withBlocks (.inl rfl) (.inr rfl))
    have hTable : AgreeBelow blocksTree (tableLocation [] .blocks) blocksAndTagsTree
        (tableLocation [] .blocks) := agreeBelow_partitionTree rfl
    have hOrder : [Kind.tags, .blocks, .transactions].Perm Kind.all := by decide
    obtain ⟨documents, outcome, after, hDocuments, hRun, hStatus, hHolds⟩ :=
      exists_written_blocksTree ⟨0, default, default⟩
    have hNoLink : ∀ target, blocksTree.entryAt? (dataLocation [] .blocks ++
        [Name.ofString pointerFileName]) ≠ some (.link target) := fun target =>
      (isUntouched_partitionTree hFiles).no_link _ target List.nil_prefix
    obtain ⟨hRuns, -⟩ := generateTable_independent hFirst hSecond (.inr rfl) hTable (.inr hNoLink)
    obtain ⟨-, hOrders⟩ := generateTable_independent hSecond hSecond (.inr rfl)
      (.refl _ (tableLocation [] .blocks)) (.inl .rfl)
    obtain ⟨hResult, hAgree⟩ := hRuns ⟨0, default, default⟩
    rw [hRun] at hResult hAgree
    exact ⟨documents, outcome,
      (generateTable inspecting .blocks ⟨0, default, default⟩ blocksAndTagsTree).2, hFirst, hSecond,
      hTable, hDocuments, Prod.ext hResult rfl, hStatus,
      hHolds.of_agreeBelow (agreeBelow_documents hAgree), hOrder, hOrders _ hOrder _⟩

/-- A link less on the way to the warehouse makes a difference to a table with a pointer among its
partitions. So it is not only what the table holds that determines what a run over it comes to. -/
theorem not_independent_of_links : ¬∀ (fs fs' : FileSystem) (warehouse warehouse' : Location)
    (config : Configuration) (kind : Kind) (stamp : Stamp),
    IsWarehouse config fs warehouse → IsWarehouse config fs' warehouse' →
      [Path.dot, Path.dot] ∉ config.warehouse.segments → fs'.workingDir = fs.workingDir →
        AgreeBelow fs (tableLocation warehouse kind) fs' (tableLocation warehouse' kind) →
          (generateTable config kind stamp fs').1 = (generateTable config kind stamp fs).1 := by
  intro hAll
  have hSame := hAll (shallowTree []) deepTree _ _ (windingConfiguration 39) .tags
    ⟨0, default, default⟩ (isWarehouse_shallowTree [] (by simp)) isWarehouse_deepTree
    (by decide +kernel) rfl (.of_at? rfl rfl)
  rw [generateTable_shallowTree, generateTable_deepTree] at hSame
  cases hSame

end ExportKit.Warehouse
