import ExportKit.Proofs.Table.Totals
import ExportKit.Proofs.Warehouse.Partitions

/-!
The numbers in the report of a run and in the documents that it writes are those of the same files,
and those of the files are what stands in them.
Main statement: `tallies_of_report`.
-/
namespace ExportKit.Warehouse

open Parquet (Footer)
open Table (DataFile Documents FileStats Kind Stamp)

variable {config : Configuration} {kind : Kind} {stamp : Stamp} {fs after : FileSystem}
  {outcome : TableOutcome} {kept : List DataFile} {file : DataFile} {pair : String × String}

/-- What is counted of a file that is kept: its bytes, and the rows that its footer states or, if
footers are not inspected, none. -/
structure Counts (config : Configuration) (fs : FileSystem) (kind : Kind) (file : DataFile)
    (pair : String × String) : Prop where
  path_eq : file.path = config.dataFile kind pair
  partitionDir_eq : file.partitionDir = pair.1
  content : ∃ content, fs.status (config.dataFile kind pair) = .ok (.file content) ∧
    file.size = UInt64.ofNat content.length ∧
    if config.inspectParquet then
      ∃ footer, Footer.ofContent? content = some footer ∧
        file.statedRows = footer.rowCount.toInt.toNat
    else file.statedRows = 0

/-- As many files as are found for a table, and those of them that pass the inspection. -/
structure CountsFiles (config : Configuration) (fs : FileSystem) (kind : Kind) (discovered : Nat)
    (kept : List DataFile) : Prop where
  found : ∃ pairs : List (String × String), pairs.length = discovered ∧ pairs.Pairwise Scan.Before ∧
    ∀ pair, pair ∈ pairs ↔ Scan.IsFound fs (config.dataDir kind) pair
  kept : ∃ pairs, List.Forall₂ (Counts config fs kind) kept pairs ∧ pairs.Pairwise Scan.Before ∧
    ∀ pair, pair ∈ pairs ↔ Scan.IsFound fs (config.dataDir kind) pair ∧ Passes config fs kind pair

/-- A file that is kept is counted with its bytes and its rows. -/
theorem Keeps.counts (h : Keeps config fs kind file pair) : Counts config fs kind file pair := by
  obtain ⟨content, hStatus, hSize, hStats⟩ := h.content
  refine ⟨h.path_eq, h.partitionDir_eq, content, hStatus, hSize, ?_⟩
  by_cases hInspect : config.inspectParquet
  · obtain ⟨stats, hSome⟩ := Option.isSome_iff_exists.mp (h.stats_isSome hInspect)
    rw [if_pos hInspect, hSome, FileStats.ofContent?, eq_comm, Option.map_eq_some_iff] at hStats
    obtain ⟨footer, hFooter, rfl⟩ := hStats
    rw [if_pos hInspect]
    refine ⟨footer, hFooter, ?_⟩
    rw [DataFile.statedRows, hSome]
    exact Table.toNat_clampCount footer.rowCount
  · rw [if_neg hInspect] at hStats ⊢
    rw [DataFile.statedRows, hStats]

/-- What a run finds for a table and keeps of it is told by what stands in the data directory. -/
theorem countsFiles_of_isClear (hClear : IsClear config fs kind) :
    CountsFiles config fs kind (discoveredFiles config fs kind).length
      (keptFiles config fs kind (discoveredFiles config fs kind)) := by
  obtain ⟨found, ⟨pairs, hFound, hSorted, hMem⟩, hDiscovered, -⟩ := exists_found hClear
  obtain ⟨keptPairs, hKept, hKeptSorted, hKeptMem⟩ := exists_kept hClear
  refine ⟨⟨pairs, ?_, hSorted, hMem⟩, keptPairs, ?_, hKeptSorted, hKeptMem⟩
  · rw [hDiscovered, hFound.length_eq]
  · exact hKept.imp fun _ _ hKeeps => hKeeps.counts

/-- What the report says about a table and what the documents of the table say are both the numbers
of the files `kept`. -/
structure Tallies (outcome : TableOutcome) (documents : Documents) (kept : List DataFile) :
    Prop where
  snapshot : ∃ snapshot, documents.metadata.currentSnapshot? = some snapshot ∧
    snapshot.summary.addedDataFiles.toNat = kept.length ∧
    snapshot.summary.addedRecords.toNat = DataFile.rows kept ∧
    snapshot.summary.addedFilesSize.toNat = DataFile.bytes kept ∧
    snapshot.summary.changedPartitionCount.toNat = (kept.map (·.partitionDir)).toFinset.card
  manifestFile : ∃ file, documents.manifestList.manifests = [file] ∧
    file.addedFilesCount.toNat = kept.length ∧ file.addedRowsCount.toNat = DataFile.rows kept
  addedRecords : outcome.addedRecords.toNat = DataFile.rows kept
  addedFilesSize : outcome.addedFilesSize.toNat = DataFile.bytes kept
  partitions : 1 ≤ (kept.map (·.partitionDir)).toFinset.card ∧
    (kept.map (·.partitionDir)).toFinset.card ≤ kept.length
  entries : outcome.manifestEntries = documents.manifest.entries.length ∧
    documents.manifest.entries.length ≤ kept.length ∧
    documents.manifest.rows ≤ DataFile.rows kept ∧ documents.manifest.bytes ≤ DataFile.bytes kept
  entries_eq_iff : (documents.manifest.entries.length = kept.length ∧
    documents.manifest.rows = DataFile.rows kept ∧ documents.manifest.bytes = DataFile.bytes kept) ↔
      ∀ file ∈ kept, file.HasRange

/-- No more files are kept than are found. -/
theorem length_keptFiles_le (config : Configuration) (fs : FileSystem) (kind : Kind)
    (discovered : List DataFile) :
    (keptFiles config fs kind discovered).length ≤ discovered.length := by
  rw [keptFiles]
  split
  next => exact List.length_filterMap_le _ _
  next => exact Nat.le_refl _

/-- The only snapshot of exported metadata is the current one. -/
theorem currentSnapshot?_documentsFor (config : Configuration) (fs : FileSystem) (kind : Kind)
    (kept : List DataFile) (stamp : Stamp) :
    ∃ snapshot, (documentsFor config fs kind kept stamp).metadata.currentSnapshot? = some snapshot ∧
      snapshot.summary = .ofFiles kept :=
  ⟨_, List.find?_cons_of_pos (by exact decide_eq_true rfl), rfl⟩

/-- The outcome that is reported about documents that were written agrees with them. -/
theorem tallies_of_writtenOutcome (hNe : kept ≠ []) (hFits : DataFile.FitsCounters kept)
    (discovered : Nat) (written : WrittenFiles) :
    Tallies (writtenOutcome kind discovered kept (documentsFor config fs kind kept stamp) written)
      (documentsFor config fs kind kept stamp) kept := by
  obtain ⟨snapshot, hSnapshot, hSummary⟩ :=
    currentSnapshot?_documentsFor config fs kind kept stamp
  have hLength : (UInt64.ofNat kept.length).toNat = kept.length :=
    UInt64.toNat_ofNat_of_lt' hFits.length
  have hPartitions : (UInt64.ofNat (DataFile.partitionCount kept)).toNat =
      (kept.map (·.partitionDir)).toFinset.card := by
    rw [← DataFile.partitionCount_eq_card]
    exact UInt64.toNat_ofNat_of_lt'
      (Nat.lt_of_le_of_lt (DataFile.partitionCount_le_length kept) hFits.length)
  constructor
  case snapshot =>
    refine ⟨snapshot, hSnapshot, ?_⟩
    rw [hSummary]
    exact ⟨hLength, hFits.toNat_totalRecords, hFits.toNat_totalSize, hPartitions⟩
  case manifestFile => exact ⟨_, rfl, hLength, hFits.toNat_totalRecords⟩
  case addedRecords =>
    simp only [writtenOutcome, hSnapshot, Option.map_some, Option.getD_some, hSummary]
    exact hFits.toNat_totalRecords
  case addedFilesSize =>
    simp only [writtenOutcome, hSnapshot, Option.map_some, Option.getD_some, hSummary]
    exact hFits.toNat_totalSize
  case partitions =>
    rw [← DataFile.partitionCount_eq_card]
    exact ⟨DataFile.one_le_partitionCount hNe, DataFile.partitionCount_le_length kept⟩
  case entries => exact ⟨rfl, Table.Manifest.ofFiles_le kept _ _⟩
  case entries_eq_iff => exact Table.Manifest.ofFiles_eq_iff kept _ _

/-- In the report of a run, the files that were found for a table are those that were kept when the
table had its turn and those that were not readable. Each file counts with its bytes and with the
rows that its footer states. If the table was written some were kept, and all numbers in the report
and in the documents about the table are theirs, unless they are too many to be counted. -/
theorem tallies_of_report {stamps : Kind → Stamp} {generatedAt : String} {report : Report}
    (h : generate config stamps generatedAt fs = (.ok report, after)) :
    ∀ outcome ∈ report.tables, ∃ kind state kept, outcome.table = kind.name ∧
      state = atTurn config stamps fs kind ∧
      kept = keptFiles config state kind (discoveredFiles config state kind) ∧
      CountsFiles config state kind outcome.discoveredFiles kept ∧
      outcome.discoveredFiles = (discoveredFiles config state kind).length ∧
      outcome.discoveredFiles = kept.length + outcome.unreadableFiles ∧
      (outcome.status = .written → kept ≠ [] ∧ ∃ documents written middle,
        documentsOf? config state kind (stamps kind) = some documents ∧
        writeDocuments (config.tableDir kind) documents state = (.ok written, middle) ∧
        outcome.written = some written ∧
        (DataFile.FitsCounters kept → Tallies outcome documents kept)) := by
  intro outcome hOutcome
  obtain ⟨kind, middle, hTurn⟩ := exists_turn_of_report h hOutcome
  refine ⟨kind, _, _, table_of_generateTable hTurn, rfl, rfl, ?_⟩
  have hCounts := countsFiles_of_isClear (isClear_of_generateTable hTurn)
  have hLe := length_keptFiles_le config (atTurn config stamps fs kind) kind
    (discoveredFiles config (atTurn config stamps fs kind) kind)
  rcases generateTable_eq_ok hTurn with
    ⟨status, hNot, hKept, rfl, -⟩ | ⟨kept, written, hRecorded, hNe, hWrite, rfl⟩
  · refine ⟨hCounts, ?_⟩
    rw [hKept]
    exact ⟨rfl, (Nat.zero_add _).symm, fun hStatus => absurd hStatus hNot⟩
  · refine ⟨hCounts, ?_⟩
    rw [keptFiles_of_recordedFiles? hRecorded] at hLe ⊢
    refine ⟨rfl, (Nat.add_sub_cancel' hLe).symm, fun _ => ⟨hNe, _, written, middle, ?_, hWrite, rfl,
      fun hFits => tallies_of_writtenOutcome hNe hFits _ written⟩⟩
    exact documentsOf?_of_recordedFiles? hRecorded (stamps kind)

section Mixed

variable {fileName : String} {content : List UInt8}

/-- A warehouse with one file that has a footer, and with one that is too short for it. -/
def mixedTree : FileSystem := partitionTree (withBlocks mixedEntries none)

theorem areFiles_mixed : AreFiles (withBlocks mixedEntries none) :=
  areFiles_withBlocks (.inr rfl) (.inl rfl)

/-- Both files of the partition are found. -/
theorem isFound_mixedTree_iff : Scan.IsFound mixedTree (inspecting.dataDir .blocks) pair ↔
    pair ∈ [(partitionName, "a.parquet"), (partitionName, "b.parquet")] := by
  rw [mixedTree, isFound_partitionTree_iff areFiles_mixed]
  obtain ⟨dirName, fileName⟩ := pair
  simp only [List.mem_cons, List.not_mem_nil, or_false, Prod.mk.injEq]
  constructor
  · rintro ⟨rfl, -, content, entries, hContents, hChild⟩
    obtain rfl := Option.some_inj.mp hContents
    rcases child?_mixedEntries.mp hChild with ⟨hName, -⟩ | ⟨hName, -⟩
    · exact .inl ⟨rfl, hName⟩
    · exact .inr ⟨rfl, hName⟩
  · rintro (⟨rfl, rfl⟩ | ⟨rfl, rfl⟩)
    · exact ⟨rfl, isCandidate_a, _, _, rfl, child?_mixedEntries.mpr (.inl ⟨rfl, rfl⟩)⟩
    · exact ⟨rfl, isCandidate_b, _, _, rfl, child?_mixedEntries.mpr (.inr ⟨rfl, rfl⟩)⟩

theorem status_mixedTree (hCandidate : Scan.IsCandidate fileName)
    (hContent : fileName = "a.parquet" ∧ content = sampleContent ∨
      fileName = "b.parquet" ∧ content = shortContent) :
    mixedTree.status (inspecting.dataFile .blocks (partitionName, fileName)) =
      .ok (.file content) := by
  have hContents : withBlocks mixedEntries none .blocks = some mixedEntries := rfl
  exact ((file_partitionTree_iff areFiles_mixed).mpr
    ⟨rfl, hCandidate, mixedEntries, hContents, child?_mixedEntries.mpr hContent⟩).2

/-- The footer of the one can be read, and that of the other cannot. -/
theorem passes_mixedTree : Passes inspecting mixedTree .blocks (partitionName, "a.parquet") ∧
    ¬Passes inspecting mixedTree .blocks (partitionName, "b.parquet") := by
  obtain ⟨hReadable, hShort⟩ := ofContent?_isSome Kind.blocks.schema
  refine ⟨fun _ => ⟨_, status_mixedTree isCandidate_a (.inl ⟨rfl, rfl⟩), hReadable⟩, fun hPasses => ?_⟩
  obtain ⟨content, hStatus, hSome⟩ := hPasses rfl
  cases hStatus.symm.trans (status_mixedTree isCandidate_b (.inr ⟨rfl, rfl⟩))
  rw [hShort] at hSome
  cases hSome

/-- Two files are found there and one is kept, which counts with what its footer states. -/
theorem countsFiles_mixedTree {discovered : Nat}
    (h : CountsFiles inspecting mixedTree .blocks discovered kept) :
    discovered = 2 ∧ kept.length = 1 ∧ DataFile.rows kept = 20 ∧ DataFile.bytes kept = 175 ∧
      ∀ file ∈ kept, file.HasRange := by
  obtain ⟨⟨found, rfl, hSorted, hMem⟩, pairs, hKept, hKeptSorted, hKeptMem⟩ := h
  have hBefore : Scan.Before (partitionName, "a.parquet") (partitionName, "b.parquet") :=
    .inr ⟨rfl, by decide⟩
  have hFound : found = [(partitionName, "a.parquet"), (partitionName, "b.parquet")] := by
    apply hSorted.eq_of_mem_iff (by simpa using hBefore)
    exact fun pair => (hMem pair).trans isFound_mixedTree_iff
  have hPairs : pairs = [(partitionName, "a.parquet")] := by
    apply hKeptSorted.eq_of_mem_iff (List.pairwise_singleton _ _)
    intro pair
    rw [hKeptMem, isFound_mixedTree_iff, List.mem_cons, List.mem_singleton, List.mem_singleton]
    constructor
    · rintro ⟨rfl | rfl, hPasses⟩
      · rfl
      · exact absurd hPasses passes_mixedTree.2
    · rintro rfl
      exact ⟨.inl rfl, passes_mixedTree.1⟩
  subst hFound hPairs
  obtain ⟨file, _, hCounts, hNone, rfl⟩ := List.forall₂_cons_right_iff.mp hKept
  obtain rfl := List.forall₂_nil_right_iff.mp hNone
  obtain ⟨content, hStatus, hSize, footer, hFooter, hRows⟩ := hCounts.content
  cases hStatus.symm.trans (status_mixedTree isCandidate_a (.inl ⟨rfl, rfl⟩))
  cases hFooter.symm.trans ofContent?_sample
  refine ⟨rfl, rfl, ?_, ?_, ?_⟩
  · rw [DataFile.rows, List.map_singleton, List.sum_singleton, hRows]
    rfl
  · have hLength : sampleContent.length = 175 := by decide +kernel
    rw [DataFile.bytes, List.map_singleton, List.sum_singleton, hSize, hLength]
    rfl
  · intro other hOther
    obtain rfl := List.mem_singleton.mp hOther
    rw [DataFile.hasRange_iff, hCounts.partitionDir_eq]
    decide

/-- A run that inspects footers over two files, one of which is too short: two are found, one cannot
be read, and the rows and bytes are those of the other. -/
theorem tallies_of_mixedTree : ∃ report after outcome documents kept,
    generate inspecting (fun _ => ⟨0, default, default⟩) "" mixedTree = (.ok report, after) ∧
    outcome ∈ report.tables ∧ outcome.status = .written ∧
    CountsFiles inspecting mixedTree .blocks outcome.discoveredFiles kept ∧
    DataFile.FitsCounters kept ∧ Tallies outcome documents kept ∧
    outcome.discoveredFiles = 2 ∧ outcome.unreadableFiles = 1 ∧ outcome.manifestEntries = 1 ∧
    outcome.addedRecords = 20 ∧ outcome.addedFilesSize = 175 := by
  have hServed : IsServed inspecting mixedTree [] := isServed_partitionTree areFiles_mixed
  have hOthers (kind : Kind) (hKind : kind ≠ .blocks) :
      mixedTree.entryAt? (tableLocation [] kind) = none := by
    cases kind <;> first | rfl | exact absurd rfl hKind
  obtain ⟨_, hDocuments⟩ : ∃ documents, documentsOf? inspecting mixedTree .blocks
      ⟨0, default, default⟩ = some documents := exists_documents_sample areFiles_mixed rfl (.inr rfl) _
  obtain ⟨outcome, others, after, hRun, hTable, hStatus, -⟩ := generate_of_blocks
    (fun _ => ⟨0, default, default⟩) hServed hasRoom_inspecting (isDir_inspecting _) hDocuments
    hOthers ""
  have hOutcome : outcome ∈ (inspecting.report "" (outcome :: others)).tables :=
    List.mem_cons_self
  obtain ⟨kind, state, kept, hKind, rfl, hKept, hCounts, -, hUnreadable, hWritten⟩ :=
    tallies_of_report hRun outcome hOutcome
  obtain rfl := kind_name_injective (hTable.symm.trans hKind)
  have hState : atTurn inspecting (fun _ => ⟨0, default, default⟩) mixedTree .blocks = mixedTree :=
    rfl
  rw [hState] at hCounts
  obtain ⟨hDiscovered, hLength, hRows, hBytes, hRanges⟩ := countsFiles_mixedTree hCounts
  obtain ⟨-, documents, written, middle, -, -, -, hTallies⟩ := hWritten hStatus
  have hFits : DataFile.FitsCounters kept := by
    refine ⟨?_, ?_, ?_⟩
    · rw [hLength]
      decide
    · rw [hRows]
      decide
    · rw [hBytes]
      decide
  have hAgrees := hTallies hFits
  obtain ⟨hEntries, -⟩ := hAgrees.entries_eq_iff.mpr hRanges
  refine ⟨_, after, outcome, documents, kept, hRun, hOutcome, hStatus, hCounts, hFits, hAgrees,
    hDiscovered, ?_, ?_, ?_, ?_⟩
  · omega
  · rw [hAgrees.entries.1, hEntries, hLength]
  · exact UInt64.toNat_inj.mp (hAgrees.addedRecords.trans hRows)
  · exact UInt64.toNat_inj.mp (hAgrees.addedFilesSize.trans hBytes)

end Mixed

end ExportKit.Warehouse
