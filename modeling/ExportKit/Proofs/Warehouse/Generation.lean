import ExportKit.Proofs.Warehouse.Scan
import ExportKit.Proofs.Warehouse.Writing
import ExportKit.Warehouse.Generation

/-!
A run over a table either leaves the file system as it was and reports that nothing was written, or
writes the documents about the recorded files of the table, whatever the documents are.
-/
namespace ExportKit.Warehouse

open FileSystem
open Table (DataFile Documents Kind Stamp)

/-- The files that are recorded for a table, in the order of the scan. Nothing is written about a
table without such files. -/
def recordedFiles? (config : Configuration) (fs : FileSystem) (kind : Kind) :
    Option (List DataFile) :=
  match Scan.ofTable fs (config.tableDir kind) with
  | .ok (.files discovered) =>
    match keptFiles config fs kind discovered with
    | [] => none
    | file :: rest => some (file :: rest)
  | _ => none

/-- The documents that a run builds about a table, if there are any. -/
def documentsOf? (config : Configuration) (fs : FileSystem) (kind : Kind) (stamp : Stamp) :
    Option Documents :=
  (recordedFiles? config fs kind).map fun files => documentsFor config fs kind files stamp

/-- Files are recorded only if some are found and some of these kept. -/
theorem recordedFiles?_eq_some {config : Configuration} {fs : FileSystem} {kind : Kind}
    {files : List DataFile} (h : recordedFiles? config fs kind = some files) :
    ∃ discovered, Scan.ofTable fs (config.tableDir kind) = .ok (.files discovered) ∧
      keptFiles config fs kind discovered = files ∧ files ≠ [] := by
  simp only [recordedFiles?] at h
  split at h
  next discovered hScan =>
    refine ⟨discovered, hScan, ?_⟩
    split at h
    next => simp at h
    next file rest hKept =>
      obtain rfl := Option.some_inj.mp h
      exact ⟨hKept, List.cons_ne_nil _ _⟩
  next => simp at h

theorem documentsOf?_of_recordedFiles? {config : Configuration} {fs : FileSystem} {kind : Kind}
    {files : List DataFile} (h : recordedFiles? config fs kind = some files) (stamp : Stamp) :
    documentsOf? config fs kind stamp = some (documentsFor config fs kind files stamp) := by
  rw [documentsOf?, h, Option.map_some]

/-- The files of a scan that finds some are those of the data directory. -/
theorem dataFiles_of_ofTable {fs : FileSystem} {tableDir : Path} {discovered : List DataFile}
    (h : Scan.ofTable fs tableDir = .ok (.files discovered)) :
    Scan.dataFiles fs (tableDir.child Scan.dataDirName) = .ok discovered := by
  simp only [Scan.ofTable] at h
  split at h
  next => simp at h
  next =>
    split at h
    next => simp at h
    next =>
      obtain ⟨files, hFiles, h⟩ := bind_eq_ok.mp h
      cases files with
      | nil => simp at h
      | cons file rest =>
          cases h
          exact hFiles

/-- A run over a table in terms of what the scan of the table found. -/
theorem generateTable_apply (config : Configuration) (kind : Kind) (stamp : Stamp)
    (fs : FileSystem) : generateTable config kind stamp fs =
      match Scan.ofTable fs (config.tableDir kind) with
      | .ok .missingTableDir => (.ok (.skipped kind.name .missingTableDir 0), fs)
      | .ok .missingDataDir => (.ok (.skipped kind.name .missingDataDir 0), fs)
      | .ok .noFiles => (.ok (.skipped kind.name .noFiles 0), fs)
      | .ok (.files discovered) => generateFrom config kind stamp discovered fs
      | .error failure => (.error failure, fs) := by
  rw [generateTable, Activity.get_bind_apply]
  cases hScan : Scan.ofTable fs (config.tableDir kind) with
  | error failure => rfl
  | ok scan => cases scan <;> rfl

/-- The data files that a run finds for a table, in the order of the scan. -/
def discoveredFiles (config : Configuration) (fs : FileSystem) (kind : Kind) : List DataFile :=
  match Scan.ofTable fs (config.tableDir kind) with
  | .ok (.files discovered) => discovered
  | _ => []

/-- The files that are discovered are those that a scan answers with. -/
theorem discoveredFiles_of_ofTable {config : Configuration} {fs : FileSystem} {kind : Kind}
    {discovered : List DataFile}
    (h : Scan.ofTable fs (config.tableDir kind) = .ok (.files discovered)) :
    discoveredFiles config fs kind = discovered := by
  rw [discoveredFiles, h]

/-- The recorded files are those kept of the discovered ones. -/
theorem keptFiles_of_recordedFiles? {config : Configuration} {fs : FileSystem} {kind : Kind}
    {files : List DataFile} (h : recordedFiles? config fs kind = some files) :
    keptFiles config fs kind (discoveredFiles config fs kind) = files := by
  obtain ⟨discovered, hScan, hKept, -⟩ := recordedFiles?_eq_some h
  rw [discoveredFiles_of_ofTable hScan, hKept]

/-- What a run over a table comes to if there is no file to record. -/
def passedOver (config : Configuration) (fs : FileSystem) (kind : Kind) :
    Except Failure TableOutcome :=
  match Scan.ofTable fs (config.tableDir kind) with
  | .ok .missingTableDir => .ok (.skipped kind.name .missingTableDir 0)
  | .ok .missingDataDir => .ok (.skipped kind.name .missingDataDir 0)
  | .ok .noFiles => .ok (.skipped kind.name .noFiles 0)
  | .ok (.files discovered) => .ok (.skipped kind.name .noReadableFiles discovered.length)
  | .error failure => .error failure

/-- A run over a table changes nothing without files to record. With such files it writes the
documents about them, and if it can it reports that. -/
theorem generateTable_eq (config : Configuration) (kind : Kind) (stamp : Stamp)
    (fs : FileSystem) : generateTable config kind stamp fs =
      match recordedFiles? config fs kind with
      | none => (passedOver config fs kind, fs)
      | some files =>
        match writeDocuments (config.tableDir kind) (documentsFor config fs kind files stamp) fs with
        | (.ok written, after) =>
          (.ok (writtenOutcome kind (discoveredFiles config fs kind).length files
            (documentsFor config fs kind files stamp) written), after)
        | (.error failure, after) => (.error failure, after) := by
  rw [generateTable_apply, passedOver, recordedFiles?, discoveredFiles]
  cases Scan.ofTable fs (config.tableDir kind) with
  | error failure => rfl
  | ok scan =>
      cases scan with
      | missingTableDir | missingDataDir | noFiles => rfl
      | files discovered =>
          simp only [generateFrom, Activity.get_bind_apply]
          cases keptFiles config fs kind discovered with
          | nil => rfl
          | cons file rest =>
              simp only [Activity.bind_apply]
              cases writeDocuments (config.tableDir kind)
                  (documentsFor config fs kind (file :: rest) stamp) fs with
              | mk result after => cases result <;> rfl

/-- What a run over a table does: it passes over the table, or writes the documents about its files,
and reports that if it can. -/
theorem generateTable_cases {config : Configuration} {kind : Kind} {stamp : Stamp}
    {fs after : FileSystem} {result : Except Failure TableOutcome}
    (h : generateTable config kind stamp fs = (result, after)) :
    (recordedFiles? config fs kind = none ∧ result = passedOver config fs kind ∧ after = fs) ∨
    ∃ files written, recordedFiles? config fs kind = some files ∧
      writeDocuments (config.tableDir kind) (documentsFor config fs kind files stamp) fs =
        (written, after) ∧
      result = written.map (writtenOutcome kind (discoveredFiles config fs kind).length files
        (documentsFor config fs kind files stamp)) := by
  rw [generateTable_eq] at h
  cases hFiles : recordedFiles? config fs kind with
  | none =>
      rw [hFiles] at h
      cases h
      exact .inl ⟨rfl, rfl, rfl⟩
  | some files =>
      right
      simp only [hFiles] at h
      split at h
      all_goals
        next hWrite =>
          cases h
          exact ⟨files, _, rfl, hWrite, rfl⟩

/-- A table that is passed over has no documents, but a count of the files found. -/
theorem passedOver_eq_ok {config : Configuration} {fs : FileSystem} {kind : Kind}
    {outcome : TableOutcome} (h : passedOver config fs kind = .ok outcome) :
    ∃ status, status ≠ .written ∧
      outcome = .skipped kind.name status (discoveredFiles config fs kind).length := by
  rw [passedOver] at h
  rw [discoveredFiles]
  cases hScan : Scan.ofTable fs (config.tableDir kind) with
  | error failure =>
      rw [hScan] at h
      cases h
  | ok scan =>
      rw [hScan] at h
      cases scan with
      | missingTableDir | missingDataDir | noFiles | files =>
          cases h
          refine ⟨_, ?_, rfl⟩
          simp

/-- Where no file is recorded, none is kept. -/
theorem keptFiles_of_none {config : Configuration} {fs : FileSystem} {kind : Kind}
    (h : recordedFiles? config fs kind = none) :
    keptFiles config fs kind (discoveredFiles config fs kind) = [] := by
  rw [discoveredFiles]
  simp only [recordedFiles?] at h
  split at h
  next =>
    split at h
    next hKept => exact hKept
    next => cases h
  next => simp [keptFiles]

/-- What is recorded are the files that are kept, if there are any. -/
theorem recordedFiles?_eq_ite (config : Configuration) (fs : FileSystem) (kind : Kind) :
    recordedFiles? config fs kind =
      if keptFiles config fs kind (discoveredFiles config fs kind) = [] then none
      else some (keptFiles config fs kind (discoveredFiles config fs kind)) := by
  cases hRecorded : recordedFiles? config fs kind with
  | none => rw [if_pos (keptFiles_of_none hRecorded)]
  | some files =>
      obtain ⟨_, -, -, hNe⟩ := recordedFiles?_eq_some hRecorded
      rw [keptFiles_of_recordedFiles? hRecorded, if_neg hNe]

/-- Without files to record a run over a table changes nothing, and does not report that the table
was written. -/
theorem generateTable_of_none {config : Configuration} {fs : FileSystem} {kind : Kind}
    (stamp : Stamp) (h : recordedFiles? config fs kind = none) :
    ∃ result, generateTable config kind stamp fs = (result, fs) ∧
      ∀ outcome, result = .ok outcome →
        outcome.table = kind.name ∧ outcome.status ≠ .written := by
  refine ⟨passedOver config fs kind, by rw [generateTable_eq, h], fun outcome hOutcome => ?_⟩
  obtain ⟨status, hStatus, rfl⟩ := passedOver_eq_ok hOutcome
  exact ⟨rfl, hStatus⟩

/-- With files to record a run over a table writes the documents about them, and if it can it
reports that. -/
theorem generateTable_of_some {config : Configuration} {fs : FileSystem} {kind : Kind}
    {stamp : Stamp} {documents : Documents}
    (h : documentsOf? config fs kind stamp = some documents) :
    ∃ outcome : WrittenFiles → TableOutcome,
      (∀ files, (outcome files).table = kind.name ∧ (outcome files).status = .written ∧
        (outcome files).written = some files) ∧
      generateTable config kind stamp fs =
        match writeDocuments (config.tableDir kind) documents fs with
        | (.ok files, after) => (.ok (outcome files), after)
        | (.error failure, after) => (.error failure, after) := by
  rw [documentsOf?, Option.map_eq_some_iff] at h
  obtain ⟨files, hFiles, rfl⟩ := h
  refine ⟨writtenOutcome kind (discoveredFiles config fs kind).length files
    (documentsFor config fs kind files stamp), fun _ => ⟨rfl, rfl, rfl⟩, ?_⟩
  rw [generateTable_eq, hFiles]

/-- What a run that does not fail does with a table: it passes over the table and changes nothing,
as there is no file to record, or it writes documents about the files that it records. -/
theorem generateTable_eq_ok {config : Configuration} {kind : Kind} {stamp : Stamp}
    {fs after : FileSystem} {outcome : TableOutcome}
    (h : generateTable config kind stamp fs = (.ok outcome, after)) :
    (∃ status, status ≠ .written ∧ keptFiles config fs kind (discoveredFiles config fs kind) = [] ∧
      outcome = .skipped kind.name status (discoveredFiles config fs kind).length ∧ after = fs) ∨
    ∃ kept written, recordedFiles? config fs kind = some kept ∧ kept ≠ [] ∧
      writeDocuments (config.tableDir kind) (documentsFor config fs kind kept stamp) fs =
        (.ok written, after) ∧
      outcome = writtenOutcome kind (discoveredFiles config fs kind).length kept
        (documentsFor config fs kind kept stamp) written := by
  rcases generateTable_cases h with ⟨hNone, hPassed, rfl⟩ | ⟨kept, written, hFiles, hWrite, hResult⟩
  · obtain ⟨status, hStatus, hSkipped⟩ := passedOver_eq_ok hPassed.symm
    exact .inl ⟨status, hStatus, keptFiles_of_none hNone, hSkipped, rfl⟩
  · obtain ⟨_, -, -, hNe⟩ := recordedFiles?_eq_some hFiles
    cases written with
    | error failure => cases hResult
    | ok written =>
        cases hResult
        exact .inr ⟨kept, written, hFiles, hNe, hWrite, rfl⟩

/-- A run that reports a table as written wrote the documents about its recorded files. -/
theorem exists_documents_of_written {config : Configuration} {kind : Kind} {stamp : Stamp}
    {fs after : FileSystem} {outcome : TableOutcome}
    (h : generateTable config kind stamp fs = (.ok outcome, after))
    (hStatus : outcome.status = .written) :
    ∃ documents files, documentsOf? config fs kind stamp = some documents ∧
      writeDocuments (config.tableDir kind) documents fs = (.ok files, after) ∧
      outcome.written = some files := by
  rcases generateTable_eq_ok h with ⟨status, hNot, -, rfl, -⟩ | ⟨kept, files, hKept, -, hWrite, rfl⟩
  · exact absurd hStatus hNot
  · exact ⟨_, files, documentsOf?_of_recordedFiles? hKept stamp, hWrite, rfl⟩

theorem table_of_generateTable {config : Configuration} {kind : Kind} {stamp : Stamp}
    {fs after : FileSystem} {outcome : TableOutcome}
    (h : generateTable config kind stamp fs = (.ok outcome, after)) :
    outcome.table = kind.name := by
  rcases generateTable_eq_ok h with ⟨status, -, -, rfl, -⟩ | ⟨kept, files, -, -, -, rfl⟩ <;> rfl

theorem isDir_of_ofTable {fs : FileSystem} {tableDir : Path} {discovered : List DataFile}
    (h : Scan.ofTable fs tableDir = .ok (.files discovered)) : fs.isDir tableDir := by
  simp only [Scan.ofTable] at h
  split at h
  next => simp at h
  next hDir => simpa using hDir

theorem isProper_dataDirName : (Name.ofString Scan.dataDirName).IsProper :=
  Name.isProper_ofString (by decide) (by decide) (by decide)

/-- The path of a data file takes at least 17 bytes more than that of its table, for `data`, a
directory, a letter, the suffix and the slashes. -/
theorem length_tableDir_of_recordedFiles? {config : Configuration} {fs : FileSystem} {kind : Kind}
    {files : List DataFile} (h : recordedFiles? config fs kind = some files) :
    (config.tableDir kind).bytes.length + 17 ≤ FileSystem.maxPath := by
  obtain ⟨discovered, hScan, hKept, hNe⟩ := recordedFiles?_eq_some h
  obtain ⟨pairs, hPairs, -, hMem⟩ :=
    Scan.dataFiles_eq_ok isProper_dataDirName (dataFiles_of_ofTable hScan)
  cases hPairs with
  | nil => exact absurd (by rw [← hKept]; simp [keptFiles]) hNe
  | @cons file pair discovered pairs hFirst _ =>
      obtain ⟨hDirNe, hVisible, hDirSlash, -, hCandidate, hSlash, content, hStatus⟩ :=
        (hMem pair).mp List.mem_cons_self
      have hDir := Name.isProper_ofString hDirNe hDirSlash hVisible
      have hFile := Name.isProper_ofString hCandidate.ne_nil hSlash hCandidate.1
      obtain ⟨spot, hResolve, -⟩ := FileSystem.exists_resolve_of_status hStatus
      have hLength := (FileSystem.accepts_of_resolve hResolve).length_le
      have hJoinFile := Path.length_join_join hDir hFile
        ((config.tableDir kind).child Scan.dataDirName)
      have hJoinDir := Path.length_join_join isProper_dataDirName hDir (config.tableDir kind)
      have hJoinData := Path.length_join_join (Table.fits_kind_name kind).proper
        isProper_dataDirName config.warehouse
      have hData : (Name.ofString Scan.dataDirName).length = 4 := by decide
      have hDirLength : 1 ≤ (Name.ofString pair.1).length :=
        List.length_pos_iff.mpr hDir.ne_nil
      have hFileLength : 9 ≤ (Name.ofString pair.2).length :=
        Nat.le_trans hCandidate.length_le (Utf8.length_le_length_encode _)
      simp only [Path.join_ofString] at hJoinFile hJoinDir hJoinData
      simp only [Configuration.tableDir] at hJoinFile hJoinDir hLength ⊢
      omega

/-! Tables with one data file. -/

section SingleFile

variable {fs : FileSystem} {path : Path} {links : Nat} {location : Location} {name : Name}

/-- A path to a directory that holds an entry leads on to that entry. -/
theorem status_child {parent child : Node} (hReaches : Reaches fs path links location)
    (hParent : fs.at? location = some parent) (hChild : parent.child? name = some child)
    (hLink : ∀ target, child.entry ≠ .link target) (hName : name.Fits maxName)
    (hAccepts : Accepts (path.join ⟨name⟩)) :
    fs.status (path.join ⟨name⟩) = .ok child ∧
      Reaches fs (path.join ⟨name⟩) links (location ++ [name]) ∧
      fs.at? (location ++ [name]) = some child := by
  have hDir : fs.entryAt? location = some .dir := by
    rw [entryAt?, hParent, Option.map_some, (Node.entry_eq_dir_iff parent).mpr]
    exact Node.isDir_of_child? hChild
  have hNode : fs.at? (location ++ [name]) = some child := by
    rw [FileSystem.at?, Node.at?_concat]
    exact (congrArg (·.bind (·.child? name)) hParent).trans hChild
  have hEntry : fs.entryAt? (location ++ [name]) = some child.entry := by
    rw [entryAt?, hNode, Option.map_some]
  exact ⟨status_entry hReaches hDir hName.proper hName.length_le hAccepts hNode hLink,
    hReaches.join hName.proper hName.length_le hEntry hLink, hNode⟩

theorem fits_dataDirName : (Name.ofString Scan.dataDirName).Fits 4 :=
  Name.fits_ofString (by decide)

theorem isValid_of_fits (hName : name.Fits maxName) : name.isValid :=
  Name.isValid_iff.mpr ⟨hName.proper, hName.length_le, hName.not_mem_zero⟩

theorem names_single {child : Node} (hName : name.Fits maxName) :
    (Node.dir [(name, child)]).names = [name] := by
  simp [Node.names, Node.entries, isValid_of_fits hName, List.eraseDups_cons]

theorem isDir_of_status {node : Node} (h : fs.status path = .ok node) : fs.isDir path = node.isDir := by
  rw [FileSystem.isDir, h]

theorem accepts_of_join (hName : name.IsProper) (hNe : path.bytes ≠ [])
    (h : Accepts (path.join ⟨name⟩)) : Accepts path := by
  refine ⟨fun hMem => h.not_mem_zero ?_, hNe, ?_⟩
  · exact (Path.mem_bytes_join hName path (by decide)).mpr (.inl hMem)
  · have hJoin := (Path.length_join hName path).1
    have hLength := h.length_le
    omega

theorem partitionFiles_single {dataDir : Path} {dirName fileName : String} {content : List UInt8}
    (hVisible : dirName.toList.head? ≠ some '.') (hFileName : (Name.ofString fileName).Fits maxName)
    (hCandidate : Scan.IsCandidate fileName)
    (hDir : fs.status (dataDir.child dirName) =
      .ok (.dir [(Name.ofString fileName, .file content)]))
    (hFile : fs.status ((dataDir.child dirName).child fileName) = .ok (.file content)) :
    Scan.partitionFiles fs dataDir (Name.ofString dirName) = .ok
      [{ path := (dataDir.child dirName).child fileName
         size := UInt64.ofNat content.length
         partitionDir := dirName
         stats := none }] := by
  have hName : Scan.visible? (Name.ofString dirName) = some dirName :=
    Scan.visible?_eq_some_iff.mpr ⟨rfl, hVisible⟩
  have hList := Scan.listDir_of_status hDir rfl
  rw [names_single hFileName] at hList
  have hFound : Scan.dataFile? fs (dataDir.child dirName) dirName (Name.ofString fileName) =
      .ok (some
        { path := (dataDir.child dirName).child fileName
          size := UInt64.ofNat content.length
          partitionDir := dirName
          stats := none }) :=
    bind_eq_ok.mpr ⟨_, Failure.ofOperation_eq_ok.mpr hFile, rfl⟩
  have hFilter : [Name.ofString fileName].filter Scan.isCandidate = [Name.ofString fileName] :=
    List.filter_cons_of_pos (Scan.isCandidate_ofString.mpr hCandidate)
  simp only [Scan.partitionFiles, hName]
  rw [if_pos (show fs.isDir (dataDir.join ⟨Name.ofString dirName⟩) from isDir_of_status hDir)]
  refine bind_eq_ok.mpr ⟨_, Failure.ofOperation_eq_ok.mpr hList, ?_⟩
  rw [hFilter]
  exact bind_eq_ok.mpr ⟨_, mapM_cons_eq_ok.mpr ⟨_, [], hFound, rfl, rfl⟩, rfl⟩

/-- The only data file of a table is found. -/
theorem ofTable_single {tableDir : Path} {table : Location} {dirName fileName : String}
    {content : List UInt8} (hReaches : Reaches fs tableDir links table)
    (hIsDir : fs.isDir tableDir) {parent : Node} (hTable : fs.at? table = some parent)
    (hData : parent.child? (Name.ofString Scan.dataDirName) =
      some (.dir [(Name.ofString dirName, .dir [(Name.ofString fileName, .file content)])]))
    (hDirName : (Name.ofString dirName).Fits maxName) (hVisible : dirName.toList.head? ≠ some '.')
    (hFileName : (Name.ofString fileName).Fits maxName) (hCandidate : Scan.IsCandidate fileName)
    (hAccepts : Accepts (((tableDir.child Scan.dataDirName).child dirName).child fileName)) :
    Scan.ofTable fs tableDir = .ok (.files
      [{ path := ((tableDir.child Scan.dataDirName).child dirName).child fileName
         size := UInt64.ofNat content.length
         partitionDir := dirName
         stats := none }]) := by
  have hDirAccepts : Accepts ((tableDir.child Scan.dataDirName).child dirName) :=
    accepts_of_join hFileName.proper (Path.bytes_join_ne_nil hDirName.proper _) hAccepts
  have hDataAccepts : Accepts (tableDir.child Scan.dataDirName) :=
    accepts_of_join hDirName.proper (Path.bytes_join_ne_nil isProper_dataDirName _) hDirAccepts
  obtain ⟨hDataStatus, hDataReaches, hDataNode⟩ := status_child hReaches hTable hData
    (fun _ hLink => by cases hLink)
    (fits_dataDirName.mono (by decide)) hDataAccepts
  obtain ⟨hDirStatus, hDirReaches, hDirNode⟩ := status_child hDataReaches hDataNode
    List.lookup_cons_self (fun _ hLink => by cases hLink) hDirName hDirAccepts
  obtain ⟨hFileStatus, -, -⟩ := status_child hDirReaches hDirNode
    List.lookup_cons_self (fun _ hLink => by cases hLink) hFileName hAccepts
  have hPartition := partitionFiles_single hVisible hFileName hCandidate hDirStatus hFileStatus
  have hList := Scan.listDir_of_status hDataStatus rfl
  rw [names_single hDirName] at hList
  have hFiles : Scan.dataFiles fs (tableDir.child Scan.dataDirName) = .ok _ :=
    bind_eq_ok.mpr ⟨_, Failure.ofOperation_eq_ok.mpr hList,
      bind_eq_ok.mpr ⟨_, mapM_cons_eq_ok.mpr ⟨_, [], hPartition, rfl, rfl⟩, rfl⟩⟩
  have hDataDir : fs.isDir (tableDir.child Scan.dataDirName) := isDir_of_status hDataStatus
  rw [Scan.ofTable, hIsDir, hDataDir, if_neg (by simp), if_neg (by simp)]
  exact bind_eq_ok.mpr ⟨_, hFiles, rfl⟩

/-- The only data file of a table is recorded, unless files are inspected. -/
theorem recordedFiles?_single {config : Configuration} {kind : Kind} {warehouse : Location}
    {root table : Node} {dirName fileName : String} {content : List UInt8}
    (hInspect : config.inspectParquet = false) (hReaches : Reaches fs config.warehouse links warehouse)
    (hRoot : fs.at? warehouse = some root) (hTable : root.child? (Name.ofString kind.name) = some table)
    (hData : table.child? (Name.ofString Scan.dataDirName) =
      some (.dir [(Name.ofString dirName, .dir [(Name.ofString fileName, .file content)])]))
    (hDirName : (Name.ofString dirName).Fits maxName) (hVisible : dirName.toList.head? ≠ some '.')
    (hFileName : (Name.ofString fileName).Fits maxName) (hCandidate : Scan.IsCandidate fileName)
    (hAccepts : Accepts ((((config.tableDir kind).child Scan.dataDirName).child dirName).child
      fileName)) :
    recordedFiles? config fs kind = some
      [{ path := (((config.tableDir kind).child Scan.dataDirName).child dirName).child fileName
         size := UInt64.ofNat content.length
         partitionDir := dirName
         stats := none }] := by
  have hKind := (Table.fits_kind_name kind).mono (show 12 ≤ maxName by decide)
  have hTableDir := Node.isDir_of_child? hData
  have hTableAccepts : Accepts (config.tableDir kind) := by
    apply accepts_of_join isProper_dataDirName (Path.bytes_join_ne_nil hKind.proper _)
    apply accepts_of_join hDirName.proper (Path.bytes_join_ne_nil isProper_dataDirName _)
    exact accepts_of_join hFileName.proper (Path.bytes_join_ne_nil hDirName.proper _) hAccepts
  obtain ⟨hStatus, hTableReaches, hTableNode⟩ := status_child hReaches hRoot hTable
    (by rw [(Node.entry_eq_dir_iff table).mpr hTableDir]; exact fun _ hLink => by cases hLink)
    hKind hTableAccepts
  have hIsDir : fs.isDir (config.tableDir kind) := (isDir_of_status hStatus).trans hTableDir
  have hScan := ofTable_single hTableReaches hIsDir hTableNode hData hDirName hVisible hFileName
    hCandidate hAccepts
  have hKept (files : List DataFile) : keptFiles config fs kind files = files := by
    rw [keptFiles, hInspect, if_neg (by simp)]
  have hFound : Scan.ofTable fs (config.tableDir kind) = .ok (.files _) := hScan
  simp only [recordedFiles?, hFound, hKept]
  rfl

end SingleFile

/-- A warehouse in the working directory, with one data file in the blocks. -/
def singleFileTree (dirName : String) : FileSystem where
  rootEntries :=
    [(Name.ofString Kind.blocks.name,
      .dir [(Name.ofString Scan.dataDirName,
        .dir [(Name.ofString dirName, .dir [(Name.ofString "a.parquet", .file [80, 65, 82, 49])])])])]
  workingDir := .existing []
  output := []

/-- The standard configuration with the working directory as the warehouse, spelled with any number
of slashes. -/
def hereConfiguration (n : Nat) : Configuration :=
  { Configuration.standard with warehouse := ⟨Path.dot :: List.replicate n Path.slash⟩ }

/-- The spelling of the warehouse with dots and slashes starts in the working directory and stays
there. -/
theorem start?_here {fs : FileSystem} (hWorkingDir : fs.workingDir = .existing []) (n : Nat) :
    fs.start? (hereConfiguration n).warehouse = some ([], [[Path.dot]]) := by
  have hSlashes (n : Nat) : (⟨List.replicate n Path.slash⟩ : Path).segments = [] := by
    induction n with
    | zero => rfl
    | succ n ih => exact (Path.segments_append_slash [] _).trans ih
  have hSegments : (hereConfiguration n).warehouse.segments = [[Path.dot]] := by
    cases n with
    | zero => decide
    | succ n =>
        refine (Path.segments_append_slash [Path.dot] (List.replicate n Path.slash)).trans ?_
        rw [hSlashes]
        decide
  have hRelative : (hereConfiguration n).warehouse.isAbsolute = false := rfl
  rw [start?, hSegments, hRelative, hWorkingDir]
  rfl

theorem accepts_here {n : Nat} (hLength : n + 1 ≤ maxPath) :
    Accepts (hereConfiguration n).warehouse := by
  refine ⟨?_, List.cons_ne_nil _ _, by simpa [hereConfiguration] using hLength⟩
  simp [hereConfiguration, Path.dot, Path.slash]

theorem resolve_here (dirName : String) {n : Nat} (hLength : n + 1 ≤ maxPath) :
    (singleFileTree dirName).resolve .follow (hereConfiguration n).warehouse =
      .ok ⟨[], some (singleFileTree dirName).root, (hereConfiguration n).warehouse.endsInSlash⟩ := by
  rw [resolve_of_start? (accepts_here hLength) (start?_here rfl n), walkFrom_of_isDir rfl rfl]
  rw [walk, walk]
  rfl

theorem reaches_here {fs : FileSystem} (hWorkingDir : fs.workingDir = .existing []) (n : Nat) :
    Reaches fs (hereConfiguration n).warehouse maxLinks [] :=
  ⟨[], [[Path.dot]], start?_here hWorkingDir n, by simp [entryAt?, FileSystem.at?, Node.at?],
    .here rfl (.nil _ _)⟩

/-- The path of a table is as long as its name and the spelling of the warehouse together, give or
take a slash. -/
theorem length_tableDir_here (n : Nat) (kind : Kind) :
    n + 1 + (Name.ofString kind.name).length ≤ ((hereConfiguration n).tableDir kind).bytes.length ∧
      ((hereConfiguration n).tableDir kind).bytes.length ≤
        n + 1 + (Name.ofString kind.name).length + 1 := by
  have hJoin := Path.length_join (Table.fits_kind_name kind).proper (hereConfiguration n).warehouse
  have hWarehouse : (hereConfiguration n).warehouse.bytes.length = n + 1 := by
    simp [hereConfiguration]
  rw [hWarehouse] at hJoin
  exact hJoin

def hereDataFile (dirName : String) (n : Nat) : DataFile where
  path := ((((hereConfiguration n).tableDir .blocks).child Scan.dataDirName).child dirName).child
    "a.parquet"
  size := 4
  partitionDir := dirName
  stats := none

/-- The data file is recorded as long as its path is accepted. -/
theorem recordedFiles?_here {dirName : String} {m n : Nat}
    (hDirName : (Name.ofString dirName).Fits m) (hMaxName : m ≤ maxName)
    (hVisible : dirName.toList.head? ≠ some '.') (hLength : n + m + 24 ≤ maxPath) :
    recordedFiles? (hereConfiguration n) (singleFileTree dirName) .blocks =
      some [hereDataFile dirName n] := by
  have hFile : (Name.ofString "a.parquet").Fits 9 :=
    Name.fits_ofString (by decide)
  have hCandidate : Scan.IsCandidate "a.parquet" := ⟨by decide, by decide⟩
  have hTableLength : ((hereConfiguration n).tableDir .blocks).bytes.length ≤ n + 8 :=
    (length_tableDir_here n .blocks).2
  have hDataLength := length_join_le fits_dataDirName ((hereConfiguration n).tableDir .blocks)
  have hDirLength := length_join_le hDirName
    (((hereConfiguration n).tableDir .blocks).child Scan.dataDirName)
  rw [Path.join_ofString] at hDataLength hDirLength
  have hTable : Accepts ((hereConfiguration n).tableDir .blocks) :=
    accepts_join (accepts_here (by omega)).not_mem_zero (Table.fits_kind_name .blocks)
      (by simp only [hereConfiguration, List.length_cons, List.length_replicate]; omega)
  have hData := accepts_join hTable.not_mem_zero fits_dataDirName (by omega)
  have hDir := accepts_join hData.not_mem_zero hDirName (by rw [Path.join_ofString]; omega)
  have hAccepts := accepts_join hDir.not_mem_zero hFile (by simp only [Path.join_ofString]; omega)
  have hReaches : Reaches (singleFileTree dirName) (hereConfiguration n).warehouse maxLinks [] :=
    reaches_here rfl n
  exact recordedFiles?_single rfl hReaches rfl rfl rfl
    (hDirName.mono hMaxName) hVisible (hFile.mono (by decide)) hCandidate hAccepts

end ExportKit.Warehouse
