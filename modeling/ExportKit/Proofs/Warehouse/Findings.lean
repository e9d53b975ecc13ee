import ExportKit.Proofs.Warehouse.Discovery

/-!
What a scan of a table answers, for any file system: whether a directory is missing, whether it is
stopped by an entry whose status it cannot get, and else which files it finds. Main statement:
`answers_ofTable`.
-/
namespace ExportKit

/-- A path leads to a directory with an entry of a given name, whatever that entry is. -/
def FileSystem.HasEntry (fs : FileSystem) (dir : Path) (name : Name) : Prop :=
  ∃ node, fs.status dir = .ok node ∧ node.isDir ∧ name.isValid ∧ node.child? name ≠ none

theorem FileSystem.HasEntry.isValid {fs : FileSystem} {dir : Path} {name : Name}
    (h : fs.HasEntry dir name) : name.isValid := by
  obtain ⟨_, -, -, hValid, -⟩ := h
  exact hValid

namespace Warehouse

open FileSystem (HasEntry LooksSame)
open Table (DataFile)

/-! Lists of computations that may fail. -/

theorem exists_mem_of_mapM_eq_error {ε α β : Type} {f : α → Except ε β} {xs : List α} {e : ε}
    (h : xs.mapM f = .error e) : ∃ x ∈ xs, f x = .error e := by
  induction xs with
  | nil => cases h
  | cons x xs ih =>
      rw [List.mapM_cons] at h
      cases hFirst : f x with
      | error other =>
          rw [hFirst] at h
          cases h
          exact ⟨x, List.mem_cons_self, hFirst⟩
      | ok y =>
          rw [hFirst] at h
          cases hRest : xs.mapM f with
          | error other =>
              rw [hRest] at h
              cases h
              obtain ⟨other, hMem, hOther⟩ := ih hRest
              exact ⟨other, List.mem_cons_of_mem x hMem, hOther⟩
          | ok rest =>
              rw [hRest] at h
              cases h

theorem exists_mapM_eq_error {ε α β : Type} {f : α → Except ε β} {xs : List α} {x : α} {e : ε}
    (hMem : x ∈ xs) (h : f x = .error e) : ∃ other, xs.mapM f = .error other := by
  induction xs with
  | nil => cases hMem
  | cons first xs ih =>
      rw [List.mapM_cons]
      cases hFirst : f first with
      | error other => exact ⟨other, rfl⟩
      | ok y =>
          rcases List.mem_cons.mp hMem with rfl | hMem
          · cases h.symm.trans hFirst
          · obtain ⟨other, hRest⟩ := ih hMem
            exact ⟨other, by rw [hRest]; rfl⟩

theorem bind_ok_eq_error_iff {ε α β : Type} {x : Except ε α} {f : α → β} {e : ε} :
    (x >>= fun a => .ok (f a)) = .error e ↔ x = .error e := by
  cases x <;> simp [bind, Except.bind]

namespace Scan

variable {fs : FileSystem} {tableDir dataDir dir : Path} {name : Name} {node : Node}
  {dirName : String} {pair : String × String} {failure : Failure}

/-! Entries whose status a scan asks for. -/

theorem hasEntry_iff (hStatus : fs.status dir = .ok node) (hDir : node.isDir) :
    HasEntry fs dir name ↔ name ∈ node.names := by
  rw [Node.mem_names]
  constructor
  · rintro ⟨other, hOther, -, hEntry⟩
    obtain rfl := Except.ok.inj (hStatus.symm.trans hOther)
    exact hEntry
  · exact fun hEntry => ⟨node, hStatus, hDir, hEntry⟩

/-- Directories that look the same have entries of the same names. -/
theorem hasEntry_congr {fs' : FileSystem} (h : LooksSame fs fs' dir) :
    HasEntry fs' dir name ↔ HasEntry fs dir name := by
  rcases h.cases with ⟨fault, hStatus, hStatus'⟩ | ⟨node, node', hStatus, hStatus', hEntry, hNames⟩
  · simp [HasEntry, hStatus, hStatus']
  · simp only [HasEntry, hStatus, hStatus', Except.ok.injEq, exists_eq_left', ← Node.mem_names,
      hNames, Node.isDir_congr hEntry]

/-- The path of an entry of an entry of the data directory. -/
def pathOf (dataDir : Path) (pair : String × String) : Path := (dataDir.child pair.1).child pair.2

/-- An entry whose status a scan asks for: it stands in a directory, links followed, that stands in
the data directory, neither is hidden, both have names in UTF-8, and it has the suffix of data
files. -/
structure IsExamined (fs : FileSystem) (dataDir : Path) (pair : String × String) : Prop where
  hasDir : HasEntry fs dataDir (Name.ofString pair.1)
  dir_visible : pair.1.toList.head? ≠ some '.'
  isDir : fs.isDir (dataDir.child pair.1)
  hasFile : HasEntry fs (dataDir.child pair.1) (Name.ofString pair.2)
  candidate : IsCandidate pair.2

/-- Such an entry that leads to a regular file. -/
def IsFound (fs : FileSystem) (dataDir : Path) (pair : String × String) : Prop :=
  IsExamined fs dataDir pair ∧ ∃ content, fs.status (pathOf dataDir pair) = .ok (.file content)

/-- Such an entry whose status cannot be had. -/
def Obstructs (fs : FileSystem) (dataDir : Path) (pair : String × String) (fault : Fault) : Prop :=
  IsExamined fs dataDir pair ∧ fs.status (pathOf dataDir pair) = .error fault

/-- Below a directory of the data directory, the data files are what is found. -/
theorem isDataFile_iff (hName : (Name.ofString dirName).IsProper)
    (hDir : fs.isDir (tableDir.child dirName)) :
    IsDataFile fs (tableDir.child dirName) pair ↔ IsFound fs (tableDir.child dirName) pair := by
  obtain ⟨node, hStatus, hNode⟩ := exists_status_of_isDir hDir
  constructor
  · intro h
    -- What is found under a name without a slash is listed.
    obtain ⟨content, hContent⟩ := h.isFile
    obtain ⟨child, hChild, hChildDir⟩ := exists_status_of_isDir h.isDir
    have hProper := Name.isProper_ofString h.dir_ne_nil h.dir_not_mem_slash h.dir_visible
    refine ⟨⟨?_, h.dir_visible, h.isDir, ?_, h.candidate⟩, content, hContent⟩
    · rw [hasEntry_iff hStatus hNode]
      exact (mem_names_iff hName hStatus h.dir_ne_nil h.dir_visible hChild).mpr h.dir_not_mem_slash
    · rw [hasEntry_iff hChild hChildDir]
      exact (mem_names_iff hProper hChild h.candidate.ne_nil h.candidate.1 hContent).mpr
        h.not_mem_slash
  · rintro ⟨h, hFile⟩
    obtain ⟨_, -, -, hDirValid, -⟩ := h.hasDir
    obtain ⟨_, -, -, hFileValid, -⟩ := h.hasFile
    obtain ⟨hDirProper, -⟩ := Name.isValid_iff.mp hDirValid
    obtain ⟨hFileProper, -⟩ := Name.isValid_iff.mp hFileValid
    refine ⟨fun hEmpty => hDirProper.ne_nil (by simp [Name.ofString, hEmpty]), h.dir_visible, ?_,
      h.isDir, h.candidate, ?_, hFile⟩
    · exact fun hMem => hDirProper.not_mem_slash (Utf8.mem_encode_of_mem hMem (by decide))
    · exact fun hMem => hFileProper.not_mem_slash (Utf8.mem_encode_of_mem hMem (by decide))

/-! Failures. -/

/-- The search for a data file fails just if the status of its path cannot be had. -/
theorem dataFile?_eq_error_iff : dataFile? fs dir dirName name = .error failure ↔
    ∃ fault, fs.status (dir.join ⟨name⟩) = .error fault ∧ failure = .io (dir.join ⟨name⟩) fault := by
  simp only [dataFile?]
  cases fs.status (dir.join ⟨name⟩) with
  | error fault =>
      simp only [Failure.ofOperation, bind, Except.bind, Except.error.injEq, exists_eq_left']
      exact eq_comm
  | ok node => cases node <;> simp [Failure.ofOperation, bind, Except.bind]

/-- The data files are those of the entries of the data directory, in their order. -/
theorem dataFiles_of_status (hStatus : fs.status dataDir = .ok node) (hDir : node.isDir) :
    dataFiles fs dataDir =
      (node.names.mapM (partitionFiles fs dataDir) >>= fun files => .ok files.flatten) := by
  rw [dataFiles, listDir_of_status hStatus hDir]
  rfl

/-- What stands in the data directory stops a scan only at an entry of it whose status cannot be
had. -/
theorem exists_obstructs_of_partitionFiles (hName : HasEntry fs dataDir name)
    (h : partitionFiles fs dataDir name = .error failure) :
    ∃ pair fault, Obstructs fs dataDir pair fault ∧ failure = .io (pathOf dataDir pair) fault := by
  cases hVisible : visible? name with
  | none => simp [partitionFiles, hVisible] at h
  | some dirName =>
      obtain ⟨rfl, hHead⟩ := visible?_eq_some_iff.mp hVisible
      by_cases hIsDir : fs.isDir (dataDir.child dirName)
      · obtain ⟨node, hStatus, hDir⟩ := exists_status_of_isDir hIsDir
        rw [partitionFiles_of_status hHead hStatus hDir, bind_ok_eq_error_iff] at h
        obtain ⟨child, hChild, hError⟩ := exists_mem_of_mapM_eq_error h
        obtain ⟨fault, hFault, rfl⟩ := dataFile?_eq_error_iff.mp hError
        obtain ⟨hListed, hCandidate⟩ := List.mem_filter.mp hChild
        obtain ⟨text, rfl, hText⟩ := isCandidate_iff.mp hCandidate
        exact ⟨(dirName, text), fault,
          ⟨⟨hName, hHead, hIsDir, (hasEntry_iff hStatus hDir).mpr hListed, hText⟩, hFault⟩, rfl⟩
      · cases (partitionFiles_of_not_isDir hIsDir).symm.trans h

/-- An entry whose status cannot be had stops the scan of its directory. -/
theorem Obstructs.partitionFiles_eq_error {fault : Fault} (h : Obstructs fs dataDir pair fault) :
    ∃ failure, partitionFiles fs dataDir (Name.ofString pair.1) = .error failure := by
  obtain ⟨hExamined, hFault⟩ := h
  obtain ⟨node, hStatus, hDir⟩ := exists_status_of_isDir hExamined.isDir
  have hListed := (hasEntry_iff hStatus hDir).mp hExamined.hasFile
  have hCandidate := isCandidate_ofString.mpr hExamined.candidate
  obtain ⟨failure, hError⟩ := exists_mapM_eq_error (List.mem_filter.mpr ⟨hListed, hCandidate⟩)
    (dataFile?_eq_error_iff.mpr ⟨fault, hFault, rfl⟩)
  rw [partitionFiles_of_status hExamined.dir_visible hStatus hDir]
  exact ⟨failure, bind_ok_eq_error_iff.mpr hError⟩

/-- A scan of a data directory is stopped only at such an entry. -/
theorem exists_obstructs_of_dataFiles (hDir : fs.isDir dataDir)
    (h : dataFiles fs dataDir = .error failure) :
    ∃ pair fault, Obstructs fs dataDir pair fault ∧ failure = .io (pathOf dataDir pair) fault := by
  obtain ⟨node, hStatus, hNode⟩ := exists_status_of_isDir hDir
  rw [dataFiles_of_status hStatus hNode, bind_ok_eq_error_iff] at h
  obtain ⟨name, hMem, hError⟩ := exists_mem_of_mapM_eq_error h
  exact exists_obstructs_of_partitionFiles ((hasEntry_iff hStatus hNode).mpr hMem) hError

/-- Each such entry stops it. -/
theorem Obstructs.dataFiles_eq_error {fault : Fault} (h : Obstructs fs dataDir pair fault) :
    ∃ failure, dataFiles fs dataDir = .error failure := by
  obtain ⟨node, hStatus, hNode, -⟩ := h.1.hasDir
  obtain ⟨failure, hPartition⟩ := h.partitionFiles_eq_error
  obtain ⟨other, hError⟩ :=
    exists_mapM_eq_error ((hasEntry_iff hStatus hNode).mp h.1.hasDir) hPartition
  rw [dataFiles_of_status hStatus hNode]
  exact ⟨other, bind_ok_eq_error_iff.mpr hError⟩

/-! Answers. -/

/-- The regular files among the entries that a scan asks for, each once, in increasing byte order of
the names of their directories and then of their own. -/
def Lists (fs : FileSystem) (dataDir : Path) (files : List DataFile) : Prop :=
  ∃ pairs, List.Forall₂ (FindsPair fs dataDir) files pairs ∧ pairs.Pairwise Before ∧
    ∀ pair, pair ∈ pairs ↔ IsFound fs dataDir pair

/-- What a scan of a table with a data directory comes to. It fails just if the status of some entry
cannot be had, and then the failure is about such an entry. -/
structure AnswersFor (fs : FileSystem) (dataDir : Path) (result : Except Failure Scan) : Prop where
  fails : (∃ path fault, result = .error (.io path fault)) ↔
    ∃ pair fault, Obstructs fs dataDir pair fault
  obstructed : ∀ failure, result = .error failure →
    ∃ pair fault, Obstructs fs dataDir pair fault ∧ failure = .io (pathOf dataDir pair) fault
  lists : (∀ pair fault, ¬Obstructs fs dataDir pair fault) →
    ∃ files, Lists fs dataDir files ∧
      (result = .ok .noFiles ↔ files = []) ∧ (result = .ok (.files files) ↔ files ≠ [])
  noFiles : (∀ pair fault, ¬Obstructs fs dataDir pair fault) →
    (result = .ok .noFiles ↔ ∀ pair, ¬IsFound fs dataDir pair)

/-- What a scan of a table comes to. -/
structure Answers (fs : FileSystem) (tableDir : Path) (result : Except Failure Scan) : Prop where
  missingTableDir : result = .ok .missingTableDir ↔ ¬fs.isDir tableDir
  missingDataDir : fs.isDir tableDir →
    (result = .ok .missingDataDir ↔ ¬fs.isDir (tableDir.child dataDirName))
  dataDir : fs.isDir tableDir → fs.isDir (tableDir.child dataDirName) →
    AnswersFor fs (tableDir.child dataDirName) result

theorem Lists.eq_nil_iff {files : List DataFile} (h : Lists fs dataDir files) :
    files = [] ↔ ∀ pair, ¬IsFound fs dataDir pair := by
  obtain ⟨pairs, hFiles, -, hMem⟩ := h
  rw [← List.length_eq_zero_iff, hFiles.length_eq, List.length_eq_zero_iff,
    List.eq_nil_iff_forall_not_mem]
  exact forall_congr' fun pair => not_congr (hMem pair)

/-- What a scan answers for the files in a data directory. -/
def ofFiles : List DataFile → Scan
  | [] => .noFiles
  | file :: rest => .files (file :: rest)

theorem ofFiles_eq_noFiles_iff {files : List DataFile} : ofFiles files = .noFiles ↔ files = [] := by
  cases files <;> simp [ofFiles]

theorem ofFiles_eq_files_iff {files : List DataFile} :
    ofFiles files = .files files ↔ files ≠ [] := by
  cases files <;> simp [ofFiles]

/-- A scan of a table with a data directory answers with the files in it. -/
theorem ofTable_of_dataDir (hTable : fs.isDir tableDir)
    (hData : fs.isDir (tableDir.child dataDirName)) :
    ofTable fs tableDir =
      (dataFiles fs (tableDir.child dataDirName) >>= fun files => .ok (ofFiles files)) := by
  rw [ofTable_of_isDir hTable, if_pos hData]
  congr 1
  funext files
  cases files <;> rfl

/-- A scan fails because of an entry that obstructs it. -/
theorem exists_obstructs_of_ofTable (hTable : fs.isDir tableDir)
    (hData : fs.isDir (tableDir.child dataDirName)) (h : ofTable fs tableDir = .error failure) :
    ∃ pair fault, Obstructs fs (tableDir.child dataDirName) pair fault ∧
      failure = .io (pathOf (tableDir.child dataDirName) pair) fault := by
  rw [ofTable_of_dataDir hTable hData, bind_ok_eq_error_iff] at h
  exact exists_obstructs_of_dataFiles hData h

/-- An entry that obstructs a scan makes it fail. -/
theorem Obstructs.ofTable_eq_error {fault : Fault} (hTable : fs.isDir tableDir)
    (hData : fs.isDir (tableDir.child dataDirName))
    (h : Obstructs fs (tableDir.child dataDirName) pair fault) :
    ∃ failure, ofTable fs tableDir = .error failure := by
  obtain ⟨failure, hError⟩ := h.dataFiles_eq_error
  rw [ofTable_of_dataDir hTable hData]
  exact ⟨failure, bind_ok_eq_error_iff.mpr hError⟩

/-- Where no entry obstructs it, a scan answers with the list of the files. -/
theorem exists_lists_of_ofTable (hTable : fs.isDir tableDir)
    (hData : fs.isDir (tableDir.child dataDirName))
    (hNone : ∀ pair fault, ¬Obstructs fs (tableDir.child dataDirName) pair fault) :
    ∃ files, Lists fs (tableDir.child dataDirName) files ∧
      ofTable fs tableDir = .ok (ofFiles files) := by
  rw [ofTable_of_dataDir hTable hData]
  cases hFiles : dataFiles fs (tableDir.child dataDirName) with
  | error failure =>
      obtain ⟨pair, fault, hObstructs, -⟩ := exists_obstructs_of_dataFiles hData hFiles
      exact absurd hObstructs (hNone pair fault)
  | ok files =>
      obtain ⟨pairs, hPairs, hSorted, hMem⟩ := dataFiles_eq_ok isProper_dataDirName hFiles
      exact ⟨files, ⟨pairs, hPairs, hSorted, fun pair =>
        (hMem pair).trans (isDataFile_iff isProper_dataDirName hData)⟩, rfl⟩

/-- A scan lists the files, or fails because of an entry that obstructs it. -/
theorem answersFor_ofTable (hTable : fs.isDir tableDir)
    (hData : fs.isDir (tableDir.child dataDirName)) :
    AnswersFor fs (tableDir.child dataDirName) (ofTable fs tableDir) := by
  constructor
  case obstructed => exact fun _ => exists_obstructs_of_ofTable hTable hData
  case fails =>
    constructor
    · rintro ⟨path, fault, hError⟩
      obtain ⟨pair, fault, hObstructs, -⟩ := exists_obstructs_of_ofTable hTable hData hError
      exact ⟨pair, fault, hObstructs⟩
    · rintro ⟨pair, fault, hObstructs⟩
      obtain ⟨failure, hError⟩ := hObstructs.ofTable_eq_error hTable hData
      obtain ⟨pair, fault, -, rfl⟩ := exists_obstructs_of_ofTable hTable hData hError
      exact ⟨_, fault, hError⟩
  case lists =>
    intro hNone
    obtain ⟨files, hFiles, hResult⟩ := exists_lists_of_ofTable hTable hData hNone
    refine ⟨files, hFiles, ?_, ?_⟩
    · rw [hResult, Except.ok.injEq, ofFiles_eq_noFiles_iff]
    · rw [hResult, Except.ok.injEq, ofFiles_eq_files_iff]
  case noFiles =>
    intro hNone
    obtain ⟨files, hFiles, hResult⟩ := exists_lists_of_ofTable hTable hData hNone
    rw [hResult, Except.ok.injEq, ofFiles_eq_noFiles_iff, hFiles.eq_nil_iff]

theorem ofTable_ne_missing (hTable : fs.isDir tableDir)
    (hData : fs.isDir (tableDir.child dataDirName)) :
    ofTable fs tableDir ≠ .ok .missingTableDir ∧ ofTable fs tableDir ≠ .ok .missingDataDir := by
  rw [ofTable_of_dataDir hTable hData]
  cases dataFiles fs (tableDir.child dataDirName) with
  | error failure => simp [bind, Except.bind]
  | ok files => cases files <;> simp [bind, Except.bind, ofFiles]

/-- A scan of a table says which directory is missing. If none is, it fails if the status of some
entry cannot be had, and else it lists the regular files. -/
theorem answers_ofTable (fs : FileSystem) (tableDir : Path) :
    Answers fs tableDir (ofTable fs tableDir) := by
  by_cases hTable : fs.isDir tableDir
  · by_cases hData : fs.isDir (tableDir.child dataDirName)
    · obtain ⟨hNotTable, hNotData⟩ := ofTable_ne_missing hTable hData
      exact ⟨iff_of_false hNotTable (not_not_intro hTable),
        fun _ => iff_of_false hNotData (not_not_intro hData), answersFor_ofTable⟩
    · have hResult : ofTable fs tableDir = .ok .missingDataDir := by
        rw [ofTable_of_isDir hTable, if_neg hData]
      refine ⟨iff_of_false ?_ (not_not_intro hTable), fun _ => iff_of_true hResult hData,
        answersFor_ofTable⟩
      rw [hResult]
      simp
  · have hResult := ofTable_of_missing (eq_false_of_ne_true hTable)
    exact ⟨iff_of_true hResult hTable, fun h => absurd h hTable, answersFor_ofTable⟩

end Scan

end Warehouse

end ExportKit
