import ExportKit.Proofs.Path
import ExportKit.Proofs.Table.Partition
import ExportKit.Proofs.Warehouse.History

/-!
The manifest of a table has one entry for each data file in a directory that is named for a range
of heights, in byte order of the directories and of the names in them.
-/
namespace ExportKit.Warehouse

open Table (DataFile Documents FileStats HeightRange Kind Manifest ManifestDataFile ManifestEntry
  Stamp)

/-- A list with some elements changed and the others dropped corresponds to another one with the
elements dropped that stand in the same places. -/
theorem forall₂_filterMap {α β γ : Type} {R : α → γ → Prop} {S : β → γ → Prop}
    {f : α → Option β} {p : γ → Prop} [DecidablePred p] {xs : List α} {ys : List γ}
    (h : List.Forall₂ R xs ys) (hNone : ∀ x y, R x y → ¬p y → f x = none)
    (hSome : ∀ x y, R x y → p y → ∃ z, f x = some z ∧ S z y) :
    List.Forall₂ S (xs.filterMap f) (ys.filter p) := by
  induction h with
  | nil => exact .nil
  | @cons x y xs ys hFirst _ ih =>
      by_cases hy : p y
      · obtain ⟨z, hz, hS⟩ := hSome x y hFirst hy
        rw [List.filterMap_cons_some hz, List.filter_cons_of_pos (by simpa using hy)]
        exact .cons hS ih
      · rw [List.filterMap_cons_none (hNone x y hFirst hy),
          List.filter_cons_of_neg (by simpa using hy)]
        exact ih

def Configuration.dataDir (config : Configuration) (kind : Kind) : Path :=
  (config.tableDir kind).child Scan.dataDirName

def Configuration.dataFile (config : Configuration) (kind : Kind) (pair : String × String) : Path :=
  ((config.dataDir kind).child pair.1).child pair.2

/-- Whether a data file passes the inspection, if there is one: its footer can be read. -/
def Passes (config : Configuration) (fs : FileSystem) (kind : Kind) (pair : String × String) :
    Prop :=
  config.inspectParquet → ∃ content, fs.status (config.dataFile kind pair) = .ok (.file content) ∧
    (FileStats.ofContent? kind.schema content).isSome

/-- What is kept about a data file: where it is, its length and the statistics that an inspection
found. -/
structure Keeps (config : Configuration) (fs : FileSystem) (kind : Kind) (file : DataFile)
    (pair : String × String) : Prop where
  path_eq : file.path = config.dataFile kind pair
  partitionDir_eq : file.partitionDir = pair.1
  content : ∃ content, fs.status (config.dataFile kind pair) = .ok (.file content) ∧
    file.size = UInt64.ofNat content.length ∧
    file.stats = if config.inspectParquet then FileStats.ofContent? kind.schema content else none
  stats_isSome : config.inspectParquet → file.stats.isSome

/-- To inspect a regular file is to read the footer of its content. -/
theorem inspectFile?_of_status {fs : FileSystem} (kind : Kind) {file : DataFile}
    {content : List UInt8} (h : fs.status file.path = .ok (.file content)) :
    inspectFile? fs kind file =
      (FileStats.ofContent? kind.schema content).map fun stats =>
        { file with stats := some stats } := by
  rw [inspectFile?, readFooter, h]
  simp only [Failure.ofOperation, bind, Except.bind]
  cases FileStats.ofContent? kind.schema content <;> rfl

/-- A file that a scan finds is at the path of its pair, with the length of its content. -/
theorem status_path_of_finds {config : Configuration} {fs : FileSystem} {kind : Kind}
    {file : DataFile} {pair : String × String}
    (h : Scan.FindsPair fs (config.dataDir kind) file pair) :
    file.path = config.dataFile kind pair ∧ ∃ content,
      fs.status file.path = .ok (.file content) ∧ file.size = UInt64.ofNat content.length := by
  obtain ⟨hPath, -, -, content, hStatus, hSize⟩ := h
  exact ⟨hPath, content, hPath ▸ hStatus, hSize⟩

/-- The files kept for a table are those found whose footer can be read, where that matters. -/
theorem keptFiles_forall₂ {config : Configuration} {fs : FileSystem} {kind : Kind}
    {files : List DataFile} {pairs : List (String × String)}
    [DecidablePred (Passes config fs kind)]
    (h : List.Forall₂ (Scan.FindsPair fs (config.dataDir kind)) files pairs) :
    List.Forall₂ (Keeps config fs kind) (keptFiles config fs kind files)
      (pairs.filter (Passes config fs kind)) := by
  rw [keptFiles]
  split
  next hInspect =>
    apply forall₂_filterMap h
    · intro file pair hFinds hNot
      obtain ⟨hPath, content, hStatus, -⟩ := status_path_of_finds hFinds
      rw [inspectFile?_of_status kind hStatus, Option.map_eq_none_iff]
      cases hStats : FileStats.ofContent? kind.schema content with
      | none => rfl
      | some stats => exact absurd (fun _ => ⟨content, hPath ▸ hStatus, by simp [hStats]⟩) hNot
    · intro file pair hFinds hPasses
      obtain ⟨hPath, content, hStatus, hSize⟩ := status_path_of_finds hFinds
      obtain ⟨other, hOther, hSome⟩ := hPasses hInspect
      obtain rfl : content = other := by simpa [← hPath, hStatus] using hOther
      obtain ⟨stats, hStats⟩ := Option.isSome_iff_exists.mp hSome
      refine ⟨{ file with stats := some stats }, ?_, hPath, hFinds.partitionDir_eq,
        ⟨content, hOther, hSize, ?_⟩, fun _ => rfl⟩
      · rw [inspectFile?_of_status kind hStatus, hStats, Option.map_some]
      · rw [if_pos hInspect, hStats]
  next hInspect =>
    have hAll : pairs.filter (Passes config fs kind) = pairs := by
      apply List.filter_eq_self.mpr
      intro pair _
      exact decide_eq_true fun h => absurd h hInspect
    rw [hAll]
    refine h.imp fun file pair hFinds => ?_
    obtain ⟨hPath, content, hStatus, hSize⟩ := status_path_of_finds hFinds
    refine ⟨hPath, hFinds.partitionDir_eq, ⟨content, hPath ▸ hStatus, hSize, ?_⟩,
      fun h => absurd h hInspect⟩
    rw [if_neg hInspect, hFinds.stats_eq]

/-- A data file is recorded by the names that lead to it from the warehouse, however the path of
the warehouse is spelled. -/
theorem warehouseRelative_dataFile (config : Configuration) (kind : Kind)
    {pair : String × String} (hDir : (Name.ofString pair.1).IsProper)
    (hFile : (Name.ofString pair.2).IsProper) :
    Table.warehouseRelative (config.dataFile kind pair) config.warehouse =
      kind.name ++ "/data/" ++ pair.1 ++ "/" ++ pair.2 := by
  have hComponents : (config.dataFile kind pair).components = config.warehouse.components ++
      [.name (Name.ofString kind.name), .name (Name.ofString Scan.dataDirName),
        .name (Name.ofString pair.1), .name (Name.ofString pair.2)] := by
    simp only [Configuration.dataFile, Configuration.dataDir, Configuration.tableDir,
      ← Path.join_ofString]
    rw [Path.components_join hFile, Path.components_join hDir,
      Path.components_join isProper_dataDirName, Path.components_join (Table.fits_kind_name kind).proper]
    simp
  have hBelow := List.isPrefixOf?_eq_some_iff_append_eq.mpr hComponents.symm
  have hText (text : String) :
      Utf8.decodeLossy (Path.componentBytes (.name (Name.ofString text))) = text.toList :=
    Utf8.decodeLossy_encode text.toList
  rw [Table.warehouseRelative, Path.below?, hBelow]
  apply String.toList_inj.mp
  simp only [Option.getD_some, List.map_cons, List.map_nil, hText]
  simp [List.intercalate, Scan.dataDirName]

/-- A map of statistics as a document has it: it is absent exactly if it is empty. -/
def IsStated (stated : Option (SortedMap Int32 UInt64)) (map : SortedMap Int32 UInt64) : Prop :=
  (stated = none ↔ map.entries = []) ∧ ∀ known, stated = some known → known = map

/-- An empty map is left out of a document, and any other is stated. -/
theorem isStated_knownMap (map : SortedMap Int32 UInt64) : IsStated (Table.knownMap map) map := by
  rw [Table.knownMap, SortedMap.isEmpty]
  cases hEntries : map.entries with
  | nil => simp [IsStated, hEntries]
  | cons first rest => simp [IsStated, hEntries, eq_comm]

/-- What a footer says about a file is what its entry says. -/
structure StatesFooter (file : ManifestDataFile) (stats : FileStats) : Prop where
  recordCount_eq : file.recordCount = stats.recordCount
  columnSizes : IsStated file.columnSizes stats.columnSizes
  valueCounts : IsStated file.valueCounts stats.valueCounts
  nullValueCounts : IsStated file.nullValueCounts stats.nullValueCounts

/-- An entry without statistics. -/
structure StatesNothing (file : ManifestDataFile) : Prop where
  recordCount_eq : file.recordCount = 0
  columnSizes_eq : file.columnSizes = none
  valueCounts_eq : file.valueCounts = none
  nullValueCounts_eq : file.nullValueCounts = none

/-- What a manifest records about a data file. -/
structure Records (config : Configuration) (fs : FileSystem) (kind : Kind) (entry : ManifestEntry)
    (pair : String × String) : Prop where
  filePath_eq : entry.dataFile.filePath = kind.name ++ "/data/" ++ pair.1 ++ "/" ++ pair.2
  heightBucket_eq : ∃ range, HeightRange.Spells pair.1.toList range ∧
    entry.dataFile.heightBucket = range.first / config.partitionSize.val
  content : ∃ content, fs.status (config.dataFile kind pair) = .ok (.file content) ∧
    entry.dataFile.fileSize = UInt64.ofNat content.length ∧
    if config.inspectParquet then
      ∃ stats, FileStats.ofContent? kind.schema content = some stats ∧
        StatesFooter entry.dataFile stats
    else StatesNothing entry.dataFile

/-- A file that a manifest records: a regular file, links followed, that is not hidden and has the
right suffix, in a directory that is named for a range of heights. With an inspection its footer can
be read. -/
structure IsRecorded (config : Configuration) (fs : FileSystem) (kind : Kind)
    (pair : String × String) : Prop where
  spells : ∃ range, HeightRange.Spells pair.1.toList range
  isDir : fs.isDir ((config.dataDir kind).child pair.1)
  candidate : Scan.IsCandidate pair.2
  not_mem_slash : '/' ∉ pair.2.toList
  isFile : ∃ content, fs.status (config.dataFile kind pair) = .ok (.file content) ∧
    (config.inspectParquet → (FileStats.ofContent? kind.schema content).isSome)

/-- A file that is kept gives an entry of the manifest, which records what was kept. -/
theorem entryOf?_of_keeps {config : Configuration} {fs : FileSystem} {kind : Kind}
    {file : DataFile} {pair : String × String} {range : HeightRange}
    (hKeeps : Keeps config fs kind file pair) (hSpells : HeightRange.Spells pair.1.toList range)
    (hDir : (Name.ofString pair.1).IsProper) (hFile : (Name.ofString pair.2).IsProper) :
    ∃ entry, Manifest.entryOf? config.warehouse config.partitionSize file = some entry ∧
      Records config fs kind entry pair := by
  have hRange := HeightRange.ofDirName?_eq_some_iff.mpr hSpells
  rw [Manifest.entryOf?, hKeeps.partitionDir_eq, hRange]
  obtain ⟨content, hStatus, hSize, hStats⟩ := hKeeps.content
  refine ⟨_, rfl, ?_, ⟨range, hSpells, rfl⟩, content, hStatus, hSize, ?_⟩
  · change Table.warehouseRelative file.path config.warehouse = _
    rw [hKeeps.path_eq, warehouseRelative_dataFile config kind hDir hFile]
  · split
    next hInspect =>
      obtain ⟨stats, hSome⟩ := Option.isSome_iff_exists.mp (hKeeps.stats_isSome hInspect)
      rw [if_pos hInspect, hSome] at hStats
      refine ⟨stats, hStats.symm, ?_⟩
      constructor <;>
        simp only [ManifestDataFile.ofDataFile, DataFile.recordCount, hSome, Option.map_some,
          Option.getD_some, Option.bind_some, isStated_knownMap]
    next hInspect =>
      rw [if_neg hInspect] at hStats
      constructor <;> simp [ManifestDataFile.ofDataFile, DataFile.recordCount, hStats]

/-- The name of a range of heights is not hidden and is no path. -/
theorem visible_of_spells {text : String} {range : HeightRange}
    (h : HeightRange.Spells text.toList range) :
    text.toList ≠ [] ∧ text.toList.head? ≠ some '.' ∧ '/' ∉ text.toList := by
  have hHead := h.head?_eq
  refine ⟨?_, ?_, h.not_mem_slash⟩
  · intro hNil
    rw [hNil] at hHead
    cases hHead
  · rw [hHead]
    decide

/-- The data files of the scan that pass the inspection and whose directory is named for a range are
the recorded ones. -/
theorem isRecorded_iff {config : Configuration} {fs : FileSystem} {kind : Kind}
    {pair : String × String} : IsRecorded config fs kind pair ↔
      (Scan.IsDataFile fs (config.dataDir kind) pair ∧ Passes config fs kind pair) ∧
        ∃ range, HeightRange.Spells pair.1.toList range := by
  constructor
  · rintro ⟨⟨range, hSpells⟩, hDir, hCandidate, hSlash, content, hStatus, hSome⟩
    obtain ⟨hNe, hVisible, hDirSlash⟩ := visible_of_spells hSpells
    exact ⟨⟨⟨hNe, hVisible, hDirSlash, hDir, hCandidate, hSlash, content, hStatus⟩,
      fun hInspect => ⟨content, hStatus, hSome hInspect⟩⟩, range, hSpells⟩
  · rintro ⟨⟨hFile, hPasses⟩, hSpells⟩
    obtain ⟨content, hStatus⟩ := hFile.isFile
    refine ⟨hSpells, hFile.isDir, hFile.candidate, hFile.not_mem_slash, content, hStatus, ?_⟩
    intro hInspect
    obtain ⟨other, hOther, hSome⟩ := hPasses hInspect
    obtain rfl : content = other := by
      have hEq := hStatus.symm.trans hOther
      simpa using hEq
    exact hSome

/-- A table that a run reports as written gets a manifest whose entries correspond one by one to the
recorded files, each once, in byte order of the directories and of the names in them. The files are
those of the file system before the run. -/
theorem manifest_entries_of_written {config : Configuration} {kind : Kind} {stamp : Stamp}
    {fs after : FileSystem} {outcome : TableOutcome}
    (h : generateTable config kind stamp fs = (.ok outcome, after))
    (hStatus : outcome.status = .written) :
    ∃ documents files pairs, documentsOf? config fs kind stamp = some documents ∧
      writeDocuments (config.tableDir kind) documents fs = (.ok files, after) ∧
      outcome.written = some files ∧
      List.Forall₂ (Records config fs kind) documents.manifest.entries pairs ∧
      pairs.Pairwise Scan.Before ∧ ∀ pair, pair ∈ pairs ↔ IsRecorded config fs kind pair := by
  classical
  obtain ⟨documents, files, hDocuments, hWrite, hFiles⟩ := exists_documents_of_written h hStatus
  refine ⟨documents, files, ?_⟩
  obtain ⟨recorded, hRecorded, hEq⟩ := Option.map_eq_some_iff.mp hDocuments
  obtain ⟨discovered, hScan, hKept, -⟩ := recordedFiles?_eq_some hRecorded
  obtain ⟨found, hFound, hSorted, hMem⟩ :=
    Scan.dataFiles_eq_ok isProper_dataDirName (dataFiles_of_ofTable hScan)
  have hKeeps := keptFiles_forall₂ hFound
  rw [hKept] at hKeeps
  have hProper : List.Forall₂ (fun file pair => (Name.ofString pair.2).IsProper ∧
      Keeps config fs kind file pair) recorded (found.filter (Passes config fs kind)) := by
    apply List.Forall₂.flip
    refine (List.forall₂_and_left _ _).mpr ⟨fun pair hPair => ?_, hKeeps.flip⟩
    have hFile := (hMem pair).mp (List.mem_filter.mp hPair).1
    exact Name.isProper_ofString hFile.candidate.ne_nil hFile.not_mem_slash hFile.candidate.1
  refine ⟨(found.filter (Passes config fs kind)).filter
    (fun pair => ∃ range, HeightRange.Spells pair.1.toList range), hDocuments, hWrite, hFiles, ?_,
    (hSorted.filter _).filter _, ?_⟩
  · rw [← hEq]
    apply forall₂_filterMap hProper
    · intro file pair hPair hNot
      rw [Manifest.entryOf?, hPair.2.partitionDir_eq, Option.map_eq_none_iff]
      apply Option.eq_none_iff_forall_ne_some.mpr
      intro range hRange
      exact hNot ⟨range, HeightRange.ofDirName?_eq_some_iff.mp hRange⟩
    · rintro file pair ⟨hName, hPair⟩ ⟨range, hSpells⟩
      obtain ⟨hNe, hVisible, hSlash⟩ := visible_of_spells hSpells
      exact entryOf?_of_keeps hPair hSpells (Name.isProper_ofString hNe hSlash hVisible) hName
  · intro pair
    rw [List.mem_filter, List.mem_filter, hMem, decide_eq_true_iff, decide_eq_true_iff,
      isRecorded_iff]
    rfl

/-- A run over a table with one data file. -/
theorem manifest_entries_of_single_file : ∃ outcome after,
    generateTable (hereConfiguration 0) .blocks ⟨0, default, default⟩
      (singleFileTree "height=0-9") = (.ok outcome, after) ∧ outcome.status = .written ∧
    ∃ documents files pairs,
      documentsOf? (hereConfiguration 0) (singleFileTree "height=0-9") .blocks
        ⟨0, default, default⟩ = some documents ∧
      writeDocuments ((hereConfiguration 0).tableDir .blocks) documents
        (singleFileTree "height=0-9") = (.ok files, after) ∧
      outcome.written = some files ∧
      List.Forall₂ (Records (hereConfiguration 0) (singleFileTree "height=0-9") .blocks)
        documents.manifest.entries pairs ∧
      pairs.Pairwise Scan.Before ∧ ∀ pair, pair ∈ pairs ↔
        IsRecorded (hereConfiguration 0) (singleFileTree "height=0-9") .blocks pair := by
  have hDirName : (Name.ofString "height=0-9").Fits 10 :=
    ⟨Name.isProper_ofString (by decide) (by decide) (by decide), by decide, by decide⟩
  obtain ⟨-, outcome, after, hRun, hStatus, -⟩ := generateTable_here hDirName
    (by decide) (by decide) (show 0 + 10 + 74 ≤ FileSystem.maxPath by decide) ⟨0, default, default⟩
  exact ⟨outcome, after, hRun, hStatus, manifest_entries_of_written hRun hStatus⟩

end ExportKit.Warehouse
