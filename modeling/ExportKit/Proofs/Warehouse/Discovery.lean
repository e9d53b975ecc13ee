import ExportKit.Proofs.FileSystem.Agreement
import ExportKit.Proofs.Warehouse.Frame
import Mathlib.Data.List.Basic

/-!
What a run finds for a table, and what it reads of that, is determined by the data directory of the
table. Only where a pointer stands among the partitions does the path of the warehouse matter: the
pointer is not followed if the path leaves no link to be followed.
-/
namespace ExportKit.Warehouse

open FileSystem
open Table (DataFile Kind Stamp)
open Table.Documents (directoryName pointerFileName versionFileName)

variable {fs fs' : FileSystem} {config : Configuration} {kind : Kind} {path dataDir : Path}
  {name : Name} {links links' : Nat} {warehouse warehouse' dir dir' : Location}

/-- The path of the warehouse leads to a directory whose only links are pointers. -/
structure IsReached (config : Configuration) (fs : FileSystem) (warehouse : Location)
    (links : Nat) : Prop where
  reaches : Reaches fs config.warehouse links warehouse
  isDir : fs.entryAt? warehouse = some .dir
  pointers : OnlyPointers fs warehouse

theorem OnlyPointers.append (h : OnlyPointers fs warehouse) (below : Location) :
    OnlyPointers fs (warehouse ++ below) :=
  fun location target hPrefix => h location target ((List.prefix_append _ _).trans hPrefix)

theorem isBeside_versionFileName :
    IsBeside (.ofString versionFileName) (Name.ofString versionFileName) := by
  have hFits := Table.fits_versionFileName
  exact ⟨Path.isAbsolute_of_isProper hFits.proper, Path.segments_singleton hFits.proper, by decide,
    hFits.proper, Nat.le_trans hFits.length_le (by decide)⟩

/-- A pointer in a directory is followed by both of two paths to it or by none. -/
def FollowsAlike (fs : FileSystem) (dir : Location) (links links' : Nat) : Prop :=
  (links = 0 ↔ links' = 0) ∨
    ∀ target, fs.entryAt? (dir ++ [Name.ofString pointerFileName]) ≠ some (.link target)

/-! Entries of a data directory. -/

/-- What stands in a data directory looks the same where the same is held, and the entries that lead
to directories hold the same. -/
theorem looksSame_and_twins (h : Twins fs fs' path links links' dir dir')
    (hPointers : OnlyPointers fs dir) (hAlike : FollowsAlike fs dir links links')
    (hName : name.IsProper) (hLength : name.length ≤ maxName) :
    LooksSame fs fs' (path.join ⟨name⟩) ∧ (fs.isDir (path.join ⟨name⟩) →
      ∃ last last' inside inside',
        Twins fs fs' (path.join ⟨name⟩) last last' inside inside' ∧ OnlyPointers fs inside) := by
  by_cases hLink : ∃ target, fs.entryAt? (dir ++ [name]) = some (.link target)
  · obtain ⟨target, hTarget⟩ := hLink
    obtain ⟨hLast, rfl⟩ := hPointers _ target (List.prefix_append dir [name]) hTarget
    rw [List.getLast?_concat, Option.some_inj] at hLast
    subst hLast
    have hLinks : links = 0 ↔ links' = 0 :=
      hAlike.resolve_right fun hNone => hNone _ hTarget
    have hVersion := hPointers.no_link (List.prefix_refl dir)
      Table.versionFileName_ne_pointerFileName
    refine ⟨h.looksSame_link hName hLength hTarget isBeside_versionFileName hVersion hLinks, ?_⟩
    intro hIsDir
    obtain ⟨hNonzero, hDir⟩ := h.reaches.isDir_link h.isDir hName hLength hTarget
      isBeside_versionFileName hVersion hIsDir
    obtain ⟨last, rfl⟩ := Nat.exists_eq_succ_of_ne_zero hNonzero
    obtain ⟨last', rfl⟩ := Nat.exists_eq_succ_of_ne_zero fun hZero => hNonzero (hLinks.mpr hZero)
    exact ⟨last, last', _, _, h.join_link hName hLength hTarget isBeside_versionFileName hDir,
      hPointers.append _⟩
  · have hNotLink : ∀ target, fs.entryAt? (dir ++ [name]) ≠ some (.link target) :=
      fun target hTarget => hLink ⟨target, hTarget⟩
    refine ⟨h.looksSame hName hLength hNotLink, fun hIsDir => ?_⟩
    obtain ⟨-, hDir⟩ := (h.reaches.isDir_iff h.isDir hName hLength hNotLink).mp hIsDir
    exact ⟨links, links', _, _, h.join hName hLength hDir, hPointers.append _⟩

/-- The pointer to the metadata is not taken for a data file. -/
theorem ne_pointerFileName_of_isCandidate (h : Scan.isCandidate name) :
    name ≠ Name.ofString pointerFileName := by
  rintro rfl
  obtain ⟨-, hSuffix⟩ := Scan.isCandidate_ofString.mp h
  exact absurd hSuffix (by decide)

/-- Data files are no links, so they look the same without further ado. -/
theorem looksSame_of_isCandidate (h : Twins fs fs' path links links' dir dir')
    (hPointers : OnlyPointers fs dir) (hName : name.isValid) (hCandidate : Scan.isCandidate name) :
    LooksSame fs fs' (path.join ⟨name⟩) := by
  obtain ⟨hProper, hLength, -⟩ := Name.isValid_iff.mp hName
  exact h.looksSame hProper hLength
    (hPointers.no_link (List.prefix_refl dir) (ne_pointerFileName_of_isCandidate hCandidate))

/-! Scans. -/

/-- Names that are listed are names that a directory can hold. -/
theorem isValid_of_listDir {names : List Name} (h : fs.listDir path = .ok names) :
    ∀ name ∈ names, name.isValid := by
  obtain ⟨node, -, hNames⟩ := bind_eq_ok.mp h
  split at hNames
  next =>
    obtain rfl := Except.ok.inj hNames
    exact fun name hMem => (Node.mem_names.mp hMem).1
  next => cases hNames

theorem bind_congr_of_ok {ε α β : Type} {x : Except ε α} {f g : α → Except ε β}
    (h : ∀ a, x = .ok a → f a = g a) : (x >>= f) = (x >>= g) := by
  cases x with
  | error e => rfl
  | ok a => exact h a rfl

theorem mapM_congr {ε α β : Type} {f g : α → Except ε β} {xs : List α}
    (h : ∀ x ∈ xs, f x = g x) : xs.mapM f = xs.mapM g := by
  induction xs with
  | nil => rfl
  | cons x xs ih =>
      rw [List.mapM_cons, List.mapM_cons, h x List.mem_cons_self,
        ih fun y hy => h y (List.mem_cons_of_mem x hy)]

theorem exists_of_mem_mapM {ε α β : Type} {f : α → Except ε β} {xs : List α} {ys : List β} {y : β}
    (h : xs.mapM f = .ok ys) (hMem : y ∈ ys) : ∃ x ∈ xs, f x = .ok y := by
  induction xs generalizing ys with
  | nil =>
      cases h
      cases hMem
  | cons x xs ih =>
      obtain ⟨first, rest, hFirst, hRest, rfl⟩ := mapM_cons_eq_ok.mp h
      rcases List.mem_cons.mp hMem with rfl | hMem
      · exact ⟨x, List.mem_cons_self, hFirst⟩
      · obtain ⟨other, hOther, hFound⟩ := ih hRest hMem
        exact ⟨other, List.mem_cons_of_mem x hOther, hFound⟩

/-- Whether a name is that of a data file depends on how its path looks. -/
theorem dataFile?_congr {dirName : String} (h : LooksSame fs fs' (path.join ⟨name⟩)) :
    Scan.dataFile? fs' path dirName name = Scan.dataFile? fs path dirName name := by
  rw [Scan.dataFile?, Scan.dataFile?]
  rcases h.cases with ⟨fault, hStatus, hStatus'⟩ | ⟨node, node', hStatus, hStatus', hEntry, -⟩
  · rw [hStatus, hStatus']
  · rw [hStatus, hStatus']
    cases node <;> cases node' <;> cases hEntry <;> rfl

/-- Two directories that hold the same have the same data files, if their pointers are followed
alike. -/
theorem partitionFiles_congr (h : Twins fs fs' dataDir links links' dir dir')
    (hPointers : OnlyPointers fs dir) (hAlike : FollowsAlike fs dir links links')
    (hName : name.isValid) :
    Scan.partitionFiles fs' dataDir name = Scan.partitionFiles fs dataDir name := by
  obtain ⟨hProper, hLength, -⟩ := Name.isValid_iff.mp hName
  obtain ⟨hSame, hTwins⟩ := looksSame_and_twins h hPointers hAlike hProper hLength
  simp only [Scan.partitionFiles]
  cases Scan.visible? name with
  | none => rfl
  | some dirName =>
      simp only [hSame.isDir_eq, hSame.listDir_eq]
      by_cases hIsDir : fs.isDir (dataDir.join ⟨name⟩)
      · obtain ⟨last, last', inside, inside', hInside, hInsidePointers⟩ := hTwins hIsDir
        rw [if_pos hIsDir, if_pos hIsDir]
        apply bind_congr_of_ok
        intro names hNames
        rw [Failure.ofOperation_eq_ok] at hNames
        rw [mapM_congr fun child hChild => ?_]
        obtain ⟨hMem, hCandidate⟩ := List.mem_filter.mp hChild
        exact dataFile?_congr (looksSame_of_isCandidate hInside hInsidePointers
          (isValid_of_listDir hNames child hMem) hCandidate)
      · rw [if_neg hIsDir, if_neg hIsDir]

/-- The same holds of two data directories. -/
theorem dataFiles_congr (hSame : LooksSame fs fs' dataDir)
    (h : Twins fs fs' dataDir links links' dir dir') (hPointers : OnlyPointers fs dir)
    (hAlike : FollowsAlike fs dir links links') :
    Scan.dataFiles fs' dataDir = Scan.dataFiles fs dataDir := by
  rw [Scan.dataFiles, Scan.dataFiles, hSame.listDir_eq]
  apply bind_congr_of_ok
  intro names hNames
  rw [Failure.ofOperation_eq_ok] at hNames
  rw [mapM_congr fun name hName =>
    partitionFiles_congr h hPointers hAlike (isValid_of_listDir hNames name hName)]

/-- The names of a data file and of its directory are such that they can be looked up. -/
theorem exists_names_of_dataFiles {files : List DataFile} {file : DataFile}
    (h : Scan.dataFiles fs dataDir = .ok files) (hFile : file ∈ files) :
    ∃ name child : Name, name.isValid ∧ child.isValid ∧ Scan.isCandidate child ∧
      fs.isDir (dataDir.join ⟨name⟩) ∧ file.path = (dataDir.join ⟨name⟩).join ⟨child⟩ := by
  simp only [Scan.dataFiles, bind_eq_ok, Failure.ofOperation_eq_ok] at h
  obtain ⟨names, hNames, found, hFound, hFiles⟩ := h
  obtain rfl := Except.ok.inj hFiles
  obtain ⟨group, hGroup, hFile⟩ := List.mem_flatten.mp hFile
  obtain ⟨name, hName, hPartition⟩ := exists_of_mem_mapM hFound hGroup
  simp only [Scan.partitionFiles] at hPartition
  split at hPartition
  next dirName _ =>
    split at hPartition
    next hIsDir =>
      simp only [bind_eq_ok, Failure.ofOperation_eq_ok] at hPartition
      obtain ⟨children, hChildren, files?, hFiles?, hGroup⟩ := hPartition
      obtain rfl := Except.ok.inj hGroup
      obtain ⟨file?, hMem, hSome⟩ := List.mem_filterMap.mp hFile
      obtain rfl : file? = some file := hSome
      obtain ⟨child, hChild, hData⟩ := exists_of_mem_mapM hFiles? hMem
      obtain ⟨hListed, hCandidate⟩ := List.mem_filter.mp hChild
      refine ⟨name, child, isValid_of_listDir hNames name hName,
        isValid_of_listDir hChildren child hListed, hCandidate, hIsDir, ?_⟩
      obtain ⟨node, -, hNode⟩ := bind_eq_ok.mp hData
      split at hNode
      next =>
        cases hNode
        rfl
      next => cases hNode
    next =>
      cases hPartition
      cases hFile
  next =>
    cases hPartition
    cases hFile

/-- The data files that are found look the same. -/
theorem looksSame_of_mem_dataFiles (h : Twins fs fs' dataDir links links' dir dir')
    (hPointers : OnlyPointers fs dir) (hAlike : FollowsAlike fs dir links links')
    {files : List DataFile} {file : DataFile} (hFiles : Scan.dataFiles fs dataDir = .ok files)
    (hFile : file ∈ files) : LooksSame fs fs' file.path := by
  obtain ⟨name, child, hName, hChild, hCandidate, hIsDir, hPath⟩ :=
    exists_names_of_dataFiles hFiles hFile
  obtain ⟨hProper, hLength, -⟩ := Name.isValid_iff.mp hName
  obtain ⟨-, hTwins⟩ := looksSame_and_twins h hPointers hAlike hProper hLength
  obtain ⟨last, last', inside, inside', hInside, hInsidePointers⟩ := hTwins hIsDir
  rw [hPath]
  exact looksSame_of_isCandidate hInside hInsidePointers hChild hCandidate

/-! Tables. -/

theorem dataDirName_ne_pointerFileName :
    Name.ofString Scan.dataDirName ≠ Name.ofString pointerFileName :=
  fun hEq => absurd (Name.ofString_injective hEq) (by decide)

/-- A place below the data directory of a table. -/
def IsInData (warehouse location : Location) : Prop :=
  ∃ kind name below, location = dataLocation warehouse kind ++ name :: below

/-- A warehouse in which links are pointers or stand below data directories. -/
def LinksInData (fs : FileSystem) (warehouse : Location) : Prop :=
  ∀ location target, warehouse <+: location → fs.entryAt? location = some (.link target) →
    IsPointer location target ∨ IsInData warehouse location

/-- Documents do not stand among data files. -/
theorem not_isInData_of_documents {location : Location}
    (h : documentsLocation warehouse kind <+: location) : ¬IsInData warehouse location := by
  rintro ⟨other, name, below, rfl⟩
  exact (not_prefix_of_documents h).2 (List.prefix_append _ _)

theorem not_isInData_table : ¬IsInData warehouse (tableLocation warehouse kind) := by
  rintro ⟨other, name, below, hEq⟩
  exact not_prefix_of_table.2 (hEq ▸ List.prefix_append _ _)

theorem not_isInData_data : ¬IsInData warehouse (dataLocation warehouse kind) := by
  rintro ⟨other, name, below, hEq⟩
  have hLength := congrArg List.length hEq
  simp [dataLocation, tableLocation] at hLength

/-- A warehouse with no links but pointers has links in the right places. -/
theorem OnlyPointers.linksInData (h : OnlyPointers fs warehouse) : LinksInData fs warehouse :=
  fun location target hPrefix hLink => .inl (h location target hPrefix hLink)

namespace LinksInData

theorem documents (h : LinksInData fs warehouse) (kind : Kind) :
    OnlyPointers fs (documentsLocation warehouse kind) := by
  intro location target hPrefix hLink
  have hWarehouse := (prefix_documentsLocation warehouse kind).trans hPrefix
  exact (h location target hWarehouse hLink).resolve_right (not_isInData_of_documents hPrefix)

theorem no_link_table (h : LinksInData fs warehouse) (kind : Kind) (target : Path) :
    fs.entryAt? (tableLocation warehouse kind) ≠ some (.link target) := by
  intro hLink
  have hPrefix : warehouse <+: tableLocation warehouse kind := List.prefix_append _ _
  obtain ⟨hLast, -⟩ := (h _ target hPrefix hLink).resolve_right not_isInData_table
  rw [tableLocation, List.getLast?_concat] at hLast
  exact kind_name_ne_pointerFileName kind (Option.some_inj.mp hLast)

theorem no_link_data (h : LinksInData fs warehouse) (kind : Kind) (target : Path) :
    fs.entryAt? (dataLocation warehouse kind) ≠ some (.link target) := by
  intro hLink
  have hPrefix : warehouse <+: dataLocation warehouse kind :=
    (List.prefix_append warehouse _).trans (List.prefix_append _ _)
  obtain ⟨hLast, -⟩ := (h _ target hPrefix hLink).resolve_right not_isInData_data
  rw [dataLocation, List.getLast?_concat] at hLast
  exact dataDirName_ne_pointerFileName (Option.some_inj.mp hLast)

end LinksInData

/-- The path of the warehouse leads to a directory with such links. -/
structure IsDepot (config : Configuration) (fs : FileSystem) (warehouse : Location)
    (links : Nat) : Prop where
  reaches : Reaches fs config.warehouse links warehouse
  isDir : fs.entryAt? warehouse = some .dir
  inData : LinksInData fs warehouse

/-- A warehouse with no links but pointers is a depot. -/
theorem IsReached.isDepot (h : IsReached config fs warehouse links) :
    IsDepot config fs warehouse links :=
  ⟨h.reaches, h.isDir, h.pointers.linksInData⟩

namespace IsDepot

/-- The directory of a table is found where it is one. -/
theorem isDir_tableDir (h : IsDepot config fs warehouse links) (kind : Kind) :
    fs.isDir (config.tableDir kind) ↔ refusal? (config.tableDir kind) = none ∧
      fs.entryAt? (tableLocation warehouse kind) = some .dir := by
  have hFits := (Table.fits_kind_name kind).mono (show 12 ≤ maxName by decide)
  exact h.reaches.isDir_iff h.isDir hFits.proper hFits.length_le (h.inData.no_link_table kind)

/-- The path of a table leaves as many links to be followed as that of the warehouse. -/
theorem tableDir (h : IsDepot config fs warehouse links)
    (hDir : fs.entryAt? (tableLocation warehouse kind) = some .dir) :
    Reaches fs (config.tableDir kind) links (tableLocation warehouse kind) := by
  have hFits := (Table.fits_kind_name kind).mono (show 12 ≤ maxName by decide)
  exact h.reaches.join hFits.proper hFits.length_le hDir (by simp)

/-- The data directory is found where it is one. -/
theorem isDir_dataDir (h : IsDepot config fs warehouse links)
    (hDir : fs.entryAt? (tableLocation warehouse kind) = some .dir) :
    fs.isDir ((config.tableDir kind).child Scan.dataDirName) ↔
      refusal? ((config.tableDir kind).child Scan.dataDirName) = none ∧
        fs.entryAt? (dataLocation warehouse kind) = some .dir := by
  have hFits := fits_dataDirName.mono (show 4 ≤ maxName by decide)
  exact (h.tableDir hDir).isDir_iff hDir hFits.proper hFits.length_le (h.inData.no_link_data kind)

end IsDepot

/-- Nothing is found for a table that has no directory. -/
theorem ofTable_of_missing {tableDir : Path} (h : fs.isDir tableDir = false) :
    Scan.ofTable fs tableDir = .ok .missingTableDir := by
  rw [Scan.ofTable, h]
  rfl

/-- What is found for a table is what its data directory holds, if it has one. -/
theorem ofTable_of_isDir {tableDir : Path} (h : fs.isDir tableDir = true) :
    Scan.ofTable fs tableDir =
      if fs.isDir (tableDir.child Scan.dataDirName) then do
        match ← Scan.dataFiles fs (tableDir.child Scan.dataDirName) with
        | [] => .ok .noFiles
        | file :: rest => .ok (.files (file :: rest))
      else .ok .missingDataDir := by
  rw [Scan.ofTable, h]
  cases fs.isDir (tableDir.child Scan.dataDirName) <;> rfl

theorem isDir_dataDir_of_ofTable {tableDir : Path} {files : List DataFile}
    (h : Scan.ofTable fs tableDir = .ok (.files files)) :
    fs.isDir (tableDir.child Scan.dataDirName) := by
  rw [ofTable_of_isDir (isDir_of_ofTable h)] at h
  split at h
  next hDataDir => exact hDataDir
  next => cases h

section Tables

variable (h : IsReached config fs warehouse links) (h' : IsReached config fs' warehouse' links')
  (hTable : fs'.entryAt? (tableLocation warehouse' kind) =
    fs.entryAt? (tableLocation warehouse kind))
  (hData : AgreeBelow fs (dataLocation warehouse kind) fs' (dataLocation warehouse' kind))
  (hAlike : FollowsAlike fs (dataLocation warehouse kind) links links')

include h h' hTable hData

/-- The data directories hold the same in both file systems. -/
theorem twins_dataDir (hDir : fs.entryAt? (tableLocation warehouse kind) = some .dir)
    (hDataDir : fs.isDir ((config.tableDir kind).child Scan.dataDirName)) :
    Twins fs fs' ((config.tableDir kind).child Scan.dataDirName) links links'
      (dataLocation warehouse kind) (dataLocation warehouse' kind) := by
  have hFits := fits_dataDirName.mono (show 4 ≤ maxName by decide)
  have hEntry := ((h.isDepot.isDir_dataDir hDir).mp hDataDir).2
  have hEntry' := hData.entry_eq.trans hEntry
  have hDir' := hTable.trans hDir
  exact ⟨(h.isDepot.tableDir hDir).join hFits.proper hFits.length_le hEntry (by simp),
    (h'.isDepot.tableDir hDir').join hFits.proper hFits.length_le hEntry' (by simp), hEntry, hData⟩

include hAlike

/-- The scan of a table finds the same if the data directories of the table hold the same. -/
theorem ofTable_congr :
    Scan.ofTable fs' (config.tableDir kind) = Scan.ofTable fs (config.tableDir kind) := by
  have hDepot := h.isDepot
  have hDepot' := h'.isDepot
  have hTableDir : fs'.isDir (config.tableDir kind) = fs.isDir (config.tableDir kind) := by
    rw [Bool.eq_iff_iff, hDepot.isDir_tableDir, hDepot'.isDir_tableDir, hTable]
  cases hIsDir : fs.isDir (config.tableDir kind) with
  | false => rw [ofTable_of_missing hIsDir, ofTable_of_missing (hTableDir.trans hIsDir)]
  | true =>
      have hDir := ((hDepot.isDir_tableDir kind).mp hIsDir).2
      have hDataDir : fs'.isDir ((config.tableDir kind).child Scan.dataDirName) =
          fs.isDir ((config.tableDir kind).child Scan.dataDirName) := by
        rw [Bool.eq_iff_iff, hDepot.isDir_dataDir hDir, hDepot'.isDir_dataDir (hTable.trans hDir),
          hData.entry_eq]
      rw [ofTable_of_isDir hIsDir, ofTable_of_isDir (hTableDir.trans hIsDir), hDataDir]
      split
      next hFound =>
        have hFits := fits_dataDirName.mono (show 4 ≤ maxName by decide)
        have hSame : LooksSame fs fs' ((config.tableDir kind).child Scan.dataDirName) :=
          .of_agreeBelow (hDepot.tableDir hDir) hDir (hDepot'.tableDir (hTable.trans hDir))
            (hTable.trans hDir) hFits.proper hFits.length_le hData (hDepot.inData.no_link_data kind)
        rw [dataFiles_congr hSame (twins_dataDir h h' hTable hData hDir hFound)
          ((h.pointers.append [Name.ofString kind.name]).append _) hAlike]
      next => rfl

/-- The files that the scan finds look the same then. -/
theorem looksSame_of_ofTable {files : List DataFile}
    (hFiles : Scan.ofTable fs (config.tableDir kind) = .ok (.files files)) :
    ∀ file ∈ files, LooksSame fs fs' file.path := by
  intro file hFile
  have hIsDir := isDir_of_ofTable hFiles
  have hDir := ((h.isDepot.isDir_tableDir kind).mp hIsDir).2
  have hFound := dataFiles_of_ofTable hFiles
  have hDataDir := isDir_dataDir_of_ofTable hFiles
  exact looksSame_of_mem_dataFiles (twins_dataDir h h' hTable hData hDir hDataDir)
    ((h.pointers.append [Name.ofString kind.name]).append _) hAlike hFound hFile

end Tables

/-! Footers. -/

/-- An inspection depends on how the path of the file looks. -/
theorem inspectFile?_congr {file : DataFile} (h : LooksSame fs fs' file.path) :
    inspectFile? fs' kind file = inspectFile? fs kind file := by
  have hFooter : readFooter fs' kind.schema file.path = readFooter fs kind.schema file.path := by
    rw [readFooter, readFooter]
    rcases h.cases with ⟨fault, hStatus, hStatus'⟩ | ⟨node, node', hStatus, hStatus', hEntry, -⟩
    · rw [hStatus, hStatus']
    · rw [hStatus, hStatus']
      cases node <;> cases node' <;> cases hEntry <;> rfl
  rw [inspectFile?, inspectFile?, hFooter]

/-- Which files are kept depends on how their paths look. -/
theorem keptFiles_congr {files : List DataFile}
    (h : ∀ file ∈ files, LooksSame fs fs' file.path) :
    keptFiles config fs' kind files = keptFiles config fs kind files := by
  rw [keptFiles, keptFiles, List.filterMap_congr fun file hFile => inspectFile?_congr (h file hFile)]

/-! What a run finds. -/

/-- Two file systems show a run the same files of a table. -/
structure FindsSame (config : Configuration) (fs fs' : FileSystem) (kind : Kind) : Prop where
  scan : Scan.ofTable fs' (config.tableDir kind) = Scan.ofTable fs (config.tableDir kind)
  kept : ∀ files, Scan.ofTable fs (config.tableDir kind) = .ok (.files files) →
    keptFiles config fs' kind files = keptFiles config fs kind files

namespace FindsSame

theorem discoveredFiles_eq (h : FindsSame config fs fs' kind) :
    discoveredFiles config fs' kind = discoveredFiles config fs kind := by
  rw [discoveredFiles, discoveredFiles, h.scan]

theorem passedOver_eq (h : FindsSame config fs fs' kind) :
    passedOver config fs' kind = passedOver config fs kind := by
  rw [passedOver, passedOver, h.scan]

/-- A run records the same files if it is shown the same ones. -/
theorem recordedFiles?_eq (h : FindsSame config fs fs' kind) :
    recordedFiles? config fs' kind = recordedFiles? config fs kind := by
  rw [recordedFiles?, recordedFiles?, h.scan]
  split
  next files hScan => rw [h.kept files hScan]
  next => rfl

end FindsSame

/-- What is found is the same if the data directories of the table hold the same. -/
theorem findsSame_of_agreeBelow (h : IsReached config fs warehouse links)
    (h' : IsReached config fs' warehouse' links')
    (hTable : fs'.entryAt? (tableLocation warehouse' kind) =
      fs.entryAt? (tableLocation warehouse kind))
    (hData : AgreeBelow fs (dataLocation warehouse kind) fs' (dataLocation warehouse' kind))
    (hAlike : FollowsAlike fs (dataLocation warehouse kind) links links') :
    FindsSame config fs fs' kind :=
  ⟨ofTable_congr h h' hTable hData hAlike,
    fun _ hFiles => keptFiles_congr (looksSame_of_ofTable h h' hTable hData hAlike hFiles)⟩

end ExportKit.Warehouse
