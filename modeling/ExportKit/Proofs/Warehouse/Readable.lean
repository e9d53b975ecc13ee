import ExportKit.Proofs.Warehouse.Entries
import ExportKit.Proofs.Warehouse.Findings
import Mathlib.Data.List.Sort

/-!
The data files whose footers can be read. A run that inspects footers writes about these and about
nothing else that stands below a data directory, as long as the scan is not stopped.
-/
namespace ExportKit.Warehouse

open FileSystem
open Table (DataFile Documents FileStats Kind Stamp)

variable {config : Configuration} {fs fs' after : FileSystem} {kind : Kind} {stamp : Stamp}
  {pair : String × String} {files files' : List DataFile} {failure : Failure} {links links' : Nat}
  {warehouse warehouse' : Location}

/-- The status of each entry that a scan of a table asks for can be had. -/
def IsClear (config : Configuration) (fs : FileSystem) (kind : Kind) : Prop :=
  ∀ pair fault, ¬Scan.Obstructs fs (config.dataDir kind) pair fault

/-- A data file whose footer can be read, with its content. -/
structure IsReadable (config : Configuration) (fs : FileSystem) (kind : Kind)
    (pair : String × String) (content : List UInt8) : Prop where
  examined : Scan.IsExamined fs (config.dataDir kind) pair
  status_eq : fs.status (config.dataFile kind pair) = .ok (.file content)
  footer : (FileStats.ofContent? kind.schema content).isSome

/-- The data files of a table whose footers can be read, each once, as they are recorded, in
increasing byte order of the names of their directories and then of their own. -/
def ListsReadable (config : Configuration) (fs : FileSystem) (kind : Kind) (files : List DataFile) :
    Prop :=
  ∃ pairs, List.Forall₂ (Keeps config fs kind) files pairs ∧ pairs.Pairwise Scan.Before ∧
    ∀ pair, pair ∈ pairs ↔ ∃ content, IsReadable config fs kind pair content

/-- The same data files of a table can be read in two file systems, with the same content. -/
def ReadsSame (config : Configuration) (fs fs' : FileSystem) (kind : Kind) : Prop :=
  ∀ pair content, IsReadable config fs' kind pair content ↔ IsReadable config fs kind pair content

/-- The same entries of a table lead to regular files in two file systems. -/
def FindsAlike (config : Configuration) (fs fs' : FileSystem) (kind : Kind) : Prop :=
  ∀ pair, Scan.IsFound fs' (config.dataDir kind) pair ↔ Scan.IsFound fs (config.dataDir kind) pair

/-! The order of a scan. -/

namespace Scan

theorem Before.asymm {left right : String × String} (h : Before left right) :
    ¬Before right left := by
  have hAscending {left right : String} (h : Ascending left right) : ¬Ascending right left := by
    intro hBack
    cases (Std.OrientedCmp.gt_of_lt h).symm.trans hBack
  have hNe {text : String} : ¬Ascending text text := fun h => SortedMap.ne_of_compare_lt h rfl
  rintro (hBack | ⟨hEq, hBack⟩)
  · rcases h with h | ⟨hEq, -⟩
    · exact hAscending h hBack
    · exact hNe (hEq ▸ hBack)
  · rcases h with h | ⟨-, h⟩
    · exact hNe (hEq ▸ h)
    · exact hAscending h hBack

instance : Std.Irrefl Before := ⟨fun _ h => h.asymm h⟩

instance : Std.Antisymm Before := ⟨fun _ _ h hBack => absurd hBack h.asymm⟩

/-- A scan asks for entries of a directory only. -/
theorem IsExamined.isDir_dataDir {dataDir : Path} (h : IsExamined fs dataDir pair) :
    fs.isDir dataDir := by
  obtain ⟨node, hStatus, hDir, -⟩ := h.hasDir
  exact (isDir_of_status hStatus).trans hDir

end Scan

/-! Directories. -/

/-- A path through a directory leads through a directory. -/
theorem isDir_of_join {path : Path} {name : Name} (hName : name.IsProper) (hNe : path.bytes ≠ [])
    (h : fs.isDir (path.join ⟨name⟩)) : fs.isDir path := by
  obtain ⟨node, hStatus, hIsDir⟩ := Scan.exists_status_of_isDir h
  obtain ⟨spot, hResolve, -⟩ := exists_resolve_of_status hStatus
  obtain ⟨links, location, hReaches, hNode⟩ := exists_reaches_of_status_join hName hStatus
  obtain ⟨between, middle, hPath, hLast⟩ := hReaches.exists_of_join hName
  have hDir : fs.entryAt? location = some .dir := by
    rw [entryAt?, FileSystem.at?, hNode, Option.map_some, (Node.entry_eq_dir_iff node).mpr hIsDir]
  exact hPath.isDir_of_accepts (hLast.entryAt?_start hDir)
    (accepts_of_join hName hNe (accepts_of_resolve hResolve))

theorem isDir_tableDir_of_dataDir (h : fs.isDir (config.dataDir kind)) :
    fs.isDir (config.tableDir kind) :=
  isDir_of_join isProper_dataDirName
    (Path.bytes_join_ne_nil (Table.fits_kind_name kind).proper config.warehouse) h

/-! Scans that are not stopped. -/

/-- What a scan answers for the files that it found, if the directories are there. -/
def answerFor (config : Configuration) (fs : FileSystem) (kind : Kind) (found : List DataFile) :
    Scan :=
  if fs.isDir (config.tableDir kind) then
    if fs.isDir (config.dataDir kind) then Scan.ofFiles found else .missingDataDir
  else .missingTableDir

/-- A table without a data directory has no files. -/
theorem ofTable_of_found (hTable : fs.isDir (config.tableDir kind))
    (hData : ¬fs.isDir (config.dataDir kind)) :
    Scan.ofTable fs (config.tableDir kind) = .ok .missingDataDir := by
  rw [ofTable_of_isDir hTable]
  exact if_neg hData

/-- A scan that is not stopped finds what there is. -/
theorem exists_found (hClear : IsClear config fs kind) :
    ∃ found, Scan.Lists fs (config.dataDir kind) found ∧ discoveredFiles config fs kind = found ∧
      Scan.ofTable fs (config.tableDir kind) = .ok (answerFor config fs kind found) := by
  by_cases hData : fs.isDir (config.dataDir kind)
  · have hTable := isDir_tableDir_of_dataDir hData
    obtain ⟨found, hFound, hScan⟩ := Scan.exists_lists_of_ofTable hTable hData hClear
    refine ⟨found, hFound, ?_, ?_⟩
    · rw [discoveredFiles, hScan]
      cases found <;> rfl
    · rw [hScan, answerFor, if_pos hTable, if_pos hData]
  · have hNone : Scan.Lists fs (config.dataDir kind) [] := by
      refine ⟨[], .nil, .nil, fun pair => iff_of_false List.not_mem_nil fun hFound => ?_⟩
      exact hData hFound.1.isDir_dataDir
    by_cases hTable : fs.isDir (config.tableDir kind)
    · have hScan := ofTable_of_found hTable hData
      refine ⟨[], hNone, ?_, ?_⟩
      · rw [discoveredFiles, hScan]
      · rw [hScan, answerFor, if_pos hTable, if_neg hData]
    · have hScan := ofTable_of_missing (eq_false_of_ne_true hTable)
      refine ⟨[], hNone, ?_, ?_⟩
      · rw [discoveredFiles, hScan]
      · rw [hScan, answerFor, if_neg hTable]

/-- The status of a table of which no file is recorded. -/
def passedStatus (config : Configuration) (fs : FileSystem) (kind : Kind) (count : Nat) :
    TableStatus :=
  if fs.isDir (config.tableDir kind) then
    if fs.isDir (config.dataDir kind) then if count = 0 then .noFiles else .noReadableFiles
    else .missingDataDir
  else .missingTableDir

/-- A table that no entry obstructs is passed over with the count of its files, if none of them is
recorded. -/
theorem passedOver_of_isClear (hClear : IsClear config fs kind) :
    passedOver config fs kind = .ok (.skipped kind.name
      (passedStatus config fs kind (discoveredFiles config fs kind).length)
      (discoveredFiles config fs kind).length) := by
  obtain ⟨found, -, -, hScan⟩ := exists_found hClear
  rw [passedOver, passedStatus, discoveredFiles, hScan, answerFor]
  cases fs.isDir (config.tableDir kind) with
  | false => rfl
  | true =>
      cases fs.isDir (config.dataDir kind) with
      | false => rfl
      | true => cases found <;> rfl

/-! What is recorded. -/

/-- The files that are kept of a table that is not obstructed are those found that pass the
inspection. -/
theorem exists_kept (hClear : IsClear config fs kind) :
    ∃ pairs, List.Forall₂ (Keeps config fs kind)
        (keptFiles config fs kind (discoveredFiles config fs kind)) pairs ∧
      pairs.Pairwise Scan.Before ∧
      ∀ pair, pair ∈ pairs ↔
        Scan.IsFound fs (config.dataDir kind) pair ∧ Passes config fs kind pair := by
  classical
  obtain ⟨found, ⟨pairs, hFound, hSorted, hMem⟩, rfl, -⟩ := exists_found hClear
  refine ⟨_, keptFiles_forall₂ hFound, hSorted.filter _, fun pair => ?_⟩
  rw [List.mem_filter, hMem, decide_eq_true_iff]

/-- The documents of a table that is not obstructed are about the files that can be read. -/
theorem exists_listsReadable (hInspect : config.inspectParquet) (hClear : IsClear config fs kind) :
    ∃ files, ListsReadable config fs kind files ∧
      recordedFiles? config fs kind = if files = [] then none else some files := by
  obtain ⟨pairs, hKept, hSorted, hMem⟩ := exists_kept hClear
  refine ⟨_, ⟨pairs, hKept, hSorted, fun pair => ?_⟩, recordedFiles?_eq_ite config fs kind⟩
  rw [hMem]
  constructor
  · rintro ⟨⟨hExamined, -⟩, hPasses⟩
    obtain ⟨content, hStatus, hFooter⟩ := hPasses hInspect
    exact ⟨content, hExamined, hStatus, hFooter⟩
  · rintro ⟨content, hExamined, hStatus, hFooter⟩
    exact ⟨⟨hExamined, content, hStatus⟩, fun _ => ⟨content, hStatus, hFooter⟩⟩

/-- There are documents to write about a table with a file that can be read. -/
theorem exists_documents_of_isReadable {content : List UInt8} (hInspect : config.inspectParquet)
    (hClear : IsClear config fs kind) (h : IsReadable config fs kind pair content) (stamp : Stamp) :
    ∃ documents, documentsOf? config fs kind stamp = some documents := by
  obtain ⟨files, ⟨pairs, hFiles, -, hMem⟩, hRecorded⟩ := exists_listsReadable hInspect hClear
  have hNe : files ≠ [] := by
    rintro rfl
    obtain rfl := List.forall₂_nil_left_iff.mp hFiles
    exact absurd ((hMem pair).mpr ⟨content, h⟩) List.not_mem_nil
  exact ⟨_, documentsOf?_of_recordedFiles? (hRecorded.trans (if_neg hNe)) stamp⟩

/-- What is recorded of a file is told by its place and its content. -/
theorem Keeps.eq_of_readsSame {file file' : DataFile} (hInspect : config.inspectParquet)
    (hSame : ReadsSame config fs fs' kind)
    (hReadable : ∃ content, IsReadable config fs kind pair content)
    (h : Keeps config fs kind file pair) (h' : Keeps config fs' kind file' pair) :
    file' = file := by
  obtain ⟨content, hReadable⟩ := hReadable
  have hContent {other : FileSystem} {found : DataFile}
      (hOther : other.status (config.dataFile kind pair) = .ok (.file content))
      (hKeeps : Keeps config other kind found pair) :
      found = ⟨config.dataFile kind pair, UInt64.ofNat content.length, pair.1,
        FileStats.ofContent? kind.schema content⟩ := by
    obtain ⟨held, hHeld, hSize, hStats⟩ := hKeeps.content
    obtain rfl : held = content := by
      have hEq := hHeld.symm.trans hOther
      simpa using hEq
    rw [if_pos hInspect] at hStats
    rw [← hKeeps.path_eq, ← hKeeps.partitionDir_eq, ← hSize, ← hStats]
  rw [hContent hReadable.status_eq h, hContent ((hSame pair content).mpr hReadable).status_eq h']

/-- Lists related to the same list by relations that determine the items are equal. -/
theorem eq_of_forall₂ {α β : Type} {R S : α → β → Prop} {xs xs' : List α} {ys : List β}
    (h : List.Forall₂ R xs ys) (h' : List.Forall₂ S xs' ys)
    (hEq : ∀ y ∈ ys, ∀ x x', R x y → S x' y → x' = x) : xs' = xs := by
  induction h generalizing xs' with
  | nil =>
      cases h'
      rfl
  | cons hFirst _ ih =>
      cases h' with
      | cons hFirst' hRest' =>
          rw [hEq _ List.mem_cons_self _ _ hFirst hFirst',
            ih hRest' fun y hy => hEq y (List.mem_cons_of_mem _ hy)]

/-- The files that can be read are recorded alike wherever they are the same. -/
theorem ListsReadable.unique (hInspect : config.inspectParquet)
    (h : ListsReadable config fs kind files) (h' : ListsReadable config fs' kind files')
    (hSame : ReadsSame config fs fs' kind) : files' = files := by
  obtain ⟨pairs, hFiles, hSorted, hMem⟩ := h
  obtain ⟨pairs', hFiles', hSorted', hMem'⟩ := h'
  obtain rfl : pairs' = pairs := by
    apply hSorted'.eq_of_mem_iff hSorted
    intro pair
    rw [hMem, hMem']
    exact exists_congr (hSame pair)
  exact eq_of_forall₂ hFiles hFiles' fun pair hPair file file' hKeeps hKeeps' =>
    hKeeps.eq_of_readsSame hInspect hSame ((hMem pair).mp hPair) hKeeps'

/-- Two file systems with the same readable files of a table make a run record the same files. -/
theorem recordedFiles?_congr (hInspect : config.inspectParquet) (hClear : IsClear config fs kind)
    (hClear' : IsClear config fs' kind) (hSame : ReadsSame config fs fs' kind) :
    recordedFiles? config fs' kind = recordedFiles? config fs kind := by
  obtain ⟨files, hFiles, hRecorded⟩ := exists_listsReadable hInspect hClear
  obtain ⟨files', hFiles', hRecorded'⟩ := exists_listsReadable hInspect hClear'
  rw [hRecorded, hRecorded', hFiles.unique hInspect hFiles' hSame]

/-- As many files are found where the same entries lead to regular files. -/
theorem length_discoveredFiles_congr (hClear : IsClear config fs kind)
    (hClear' : IsClear config fs' kind) (hSame : FindsAlike config fs fs' kind) :
    (discoveredFiles config fs' kind).length = (discoveredFiles config fs kind).length := by
  obtain ⟨found, ⟨pairs, hFound, hSorted, hMem⟩, rfl, -⟩ := exists_found hClear
  obtain ⟨found', ⟨pairs', hFound', hSorted', hMem'⟩, rfl, -⟩ := exists_found hClear'
  have hPairs : pairs' = pairs := by
    apply hSorted'.eq_of_mem_iff hSorted
    intro pair
    rw [hMem, hMem']
    exact hSame pair
  rw [hFound.length_eq, hFound'.length_eq, hPairs]

/-! Failures. -/

/-- A table is passed over unless it is obstructed. -/
theorem exists_obstructs_of_passedOver (h : passedOver config fs kind = .error failure) :
    ∃ pair fault, Scan.Obstructs fs (config.dataDir kind) pair fault ∧
      failure = .io (Scan.pathOf (config.dataDir kind) pair) fault := by
  by_cases hClear : IsClear config fs kind
  · cases (passedOver_of_isClear hClear).symm.trans h
  · obtain ⟨pair, fault, hObstructs⟩ : ∃ pair fault,
        Scan.Obstructs fs (config.dataDir kind) pair fault := by
      simpa [IsClear] using hClear
    have hData := hObstructs.1.isDir_dataDir
    rw [passedOver] at h
    cases hScan : Scan.ofTable fs (config.tableDir kind) with
    | error other =>
        rw [hScan] at h
        cases h
        exact Scan.exists_obstructs_of_ofTable (isDir_tableDir_of_dataDir hData) hData hScan
    | ok scan =>
        rw [hScan] at h
        cases scan <;> cases h

/-- A run over a table that does not fail was not stopped at an entry. -/
theorem isClear_of_generateTable {outcome : TableOutcome}
    (h : generateTable config kind stamp fs = (.ok outcome, after)) : IsClear config fs kind := by
  intro pair fault hObstructs
  have hData := hObstructs.1.isDir_dataDir
  obtain ⟨failure, hScan⟩ := hObstructs.ofTable_eq_error (isDir_tableDir_of_dataDir hData) hData
  rw [generateTable_apply, hScan] at h
  cases h

/-- A run over a table fails because its documents cannot be written, or because it is stopped at an
entry whose status cannot be had. -/
theorem generateTable_eq_error (h : generateTable config kind stamp fs = (.error failure, after)) :
    (∃ documents, documentsOf? config fs kind stamp = some documents ∧
      writeDocuments (config.tableDir kind) documents fs = (.error failure, after)) ∨
    ∃ pair fault, Scan.Obstructs fs (config.dataDir kind) pair fault ∧
      failure = .io (Scan.pathOf (config.dataDir kind) pair) fault ∧ after = fs := by
  rcases generateTable_cases h with ⟨-, hPassed, rfl⟩ | ⟨files, written, hFiles, hWrite, hResult⟩
  · obtain ⟨pair, fault, hObstructs, hFailure⟩ := exists_obstructs_of_passedOver hPassed.symm
    exact .inr ⟨pair, fault, hObstructs, hFailure, rfl⟩
  · cases written with
    | ok written => cases hResult
    | error other =>
        cases hResult
        exact .inl ⟨_, documentsOf?_of_recordedFiles? hFiles stamp, hWrite⟩

/-! Data directories that hold the same. -/

/-- A scan of a table asks for the same entries in two file systems, and what their paths lead to
looks the same. -/
structure ExaminesSame (config : Configuration) (fs fs' : FileSystem) (kind : Kind) : Prop where
  examined : ∀ pair, Scan.IsExamined fs' (config.dataDir kind) pair ↔
    Scan.IsExamined fs (config.dataDir kind) pair
  looksSame : ∀ pair, Scan.IsExamined fs (config.dataDir kind) pair →
    LooksSame fs fs' (config.dataFile kind pair)

namespace ExaminesSame

theorem refl (config : Configuration) (fs : FileSystem) (kind : Kind) :
    ExaminesSame config fs fs kind := ⟨fun _ => Iff.rfl, fun _ _ => rfl⟩

/-- A scan that nothing stops is not stopped where it asks for the same. -/
theorem isClear (h : ExaminesSame config fs fs' kind) (hClear : IsClear config fs kind) :
    IsClear config fs' kind := by
  rintro pair fault ⟨hExamined, hFault⟩
  rw [h.examined] at hExamined
  rcases (h.looksSame pair hExamined).cases with
    ⟨_, hStatus, -⟩ | ⟨_, _, -, hStatus, -⟩
  · exact hClear pair _ ⟨hExamined, hStatus⟩
  · cases hStatus.symm.trans hFault

/-- The same data files stand there with the same content. -/
theorem file_iff (h : ExaminesSame config fs fs' kind) (content : List UInt8) :
    Scan.IsExamined fs' (config.dataDir kind) pair ∧
        fs'.status (config.dataFile kind pair) = .ok (.file content) ↔
      Scan.IsExamined fs (config.dataDir kind) pair ∧
        fs.status (config.dataFile kind pair) = .ok (.file content) := by
  rw [h.examined]
  refine and_congr_right fun hExamined => ?_
  rcases (h.looksSame pair hExamined).cases with
    ⟨fault, hStatus, hStatus'⟩ | ⟨node, node', hStatus, hStatus', hEntry, -⟩
  · rw [hStatus, hStatus']
  · rw [hStatus, hStatus']
    cases node <;> cases node' <;> cases hEntry <;> simp

/-- Where a scan asks for the same, the same files can be read. -/
theorem readsSame (h : ExaminesSame config fs fs' kind) : ReadsSame config fs fs' kind := by
  intro pair content
  constructor
  · rintro ⟨hExamined, hStatus, hFooter⟩
    obtain ⟨hExamined, hStatus⟩ := (h.file_iff content).mp ⟨hExamined, hStatus⟩
    exact ⟨hExamined, hStatus, hFooter⟩
  · rintro ⟨hExamined, hStatus, hFooter⟩
    obtain ⟨hExamined, hStatus⟩ := (h.file_iff content).mpr ⟨hExamined, hStatus⟩
    exact ⟨hExamined, hStatus, hFooter⟩

/-- Where a scan asks for the same, the same files are found. -/
theorem findsAlike (h : ExaminesSame config fs fs' kind) : FindsAlike config fs fs' kind := by
  intro pair
  simp only [Scan.IsFound, ← exists_and_left]
  exact exists_congr h.file_iff

end ExaminesSame

namespace Scan

variable {dataDir : Path} {dir dir' : Location}

/-- The entries of data directories that hold the same are the same and look the same. -/
theorem isExamined_congr (hSame : LooksSame fs fs' dataDir)
    (hTwins : fs.isDir dataDir → Twins fs fs' dataDir links links' dir dir')
    (hPointers : OnlyPointers fs dir) (hAlike : FollowsAlike fs dir links links')
    (pair : String × String) :
    (IsExamined fs' dataDir pair ↔ IsExamined fs dataDir pair) ∧
      (IsExamined fs dataDir pair → LooksSame fs fs' (pathOf dataDir pair)) := by
  by_cases hDir : fs.isDir dataDir ∧ (Name.ofString pair.1).isValid
  · obtain ⟨hDir, hName⟩ := hDir
    obtain ⟨hProper, hLength, -⟩ := Name.isValid_iff.mp hName
    obtain ⟨hChild, hInside⟩ :=
      looksSame_and_twins (hTwins hDir) hPointers hAlike hProper hLength
    have hChild : LooksSame fs fs' (dataDir.child pair.1) := hChild
    constructor
    · constructor
      · rintro ⟨hHasDir, hVisible, hIsDir, hHasFile, hCandidate⟩
        exact ⟨(hasEntry_congr hSame).mp hHasDir, hVisible, hChild.isDir_eq ▸ hIsDir,
          (hasEntry_congr hChild).mp hHasFile, hCandidate⟩
      · rintro ⟨hHasDir, hVisible, hIsDir, hHasFile, hCandidate⟩
        exact ⟨(hasEntry_congr hSame).mpr hHasDir, hVisible, hChild.isDir_eq.trans hIsDir,
          (hasEntry_congr hChild).mpr hHasFile, hCandidate⟩
    · intro hExamined
      obtain ⟨_, _, _, _, hInsideTwins, hInsidePointers⟩ := hInside hExamined.isDir
      obtain ⟨_, -, -, hFileName, -⟩ := hExamined.hasFile
      exact looksSame_of_isCandidate hInsideTwins hInsidePointers hFileName
        (isCandidate_ofString.mpr hExamined.candidate)
  · have hNot : ¬IsExamined fs dataDir pair := fun hExamined =>
      hDir ⟨hExamined.isDir_dataDir, hExamined.hasDir.isValid⟩
    have hNot' : ¬IsExamined fs' dataDir pair := fun hExamined =>
      hDir ⟨hSame.isDir_eq ▸ hExamined.isDir_dataDir, hExamined.hasDir.isValid⟩
    exact ⟨iff_of_false hNot' hNot, fun hExamined => absurd hExamined hNot⟩

end Scan

/-- What a scan asks for looks the same if the data directories of the table hold the same. -/
theorem examinesSame_of_agreeBelow (h : IsReached config fs warehouse links)
    (h' : IsReached config fs' warehouse' links')
    (hTable : fs'.entryAt? (tableLocation warehouse' kind) =
      fs.entryAt? (tableLocation warehouse kind))
    (hData : AgreeBelow fs (dataLocation warehouse kind) fs' (dataLocation warehouse' kind))
    (hAlike : FollowsAlike fs (dataLocation warehouse kind) links links') :
    ExaminesSame config fs fs' kind := by
  have hDepot := h.isDepot
  have hDepot' := h'.isDepot
  by_cases hDir : fs.entryAt? (tableLocation warehouse kind) = some .dir
  · have hFits := fits_dataDirName.mono (show 4 ≤ maxName by decide)
    have hSame : LooksSame fs fs' (config.dataDir kind) :=
      .of_agreeBelow (hDepot.tableDir hDir) hDir (hDepot'.tableDir (hTable.trans hDir))
        (hTable.trans hDir) hFits.proper hFits.length_le hData (hDepot.inData.no_link_data kind)
    have hPair := Scan.isExamined_congr hSame (twins_dataDir h h' hTable hData hDir)
      ((h.pointers.append [Name.ofString kind.name]).append _) hAlike
    exact ⟨fun pair => (hPair pair).1, fun pair => (hPair pair).2⟩
  · have hNone {other : FileSystem} {inside : Location} {left : Nat}
        (hOther : IsDepot config other inside left)
        (hNotDir : other.entryAt? (tableLocation inside kind) ≠ some .dir)
        (pair : String × String) : ¬Scan.IsExamined other (config.dataDir kind) pair :=
      fun hExamined => hNotDir ((hOther.isDir_tableDir kind).mp
        (isDir_tableDir_of_dataDir hExamined.isDir_dataDir)).2
    exact ⟨fun pair => iff_of_false (hNone hDepot' (hTable ▸ hDir) pair) (hNone hDepot hDir pair),
      fun pair hExamined => absurd hExamined (hNone hDepot hDir pair)⟩

end ExportKit.Warehouse
