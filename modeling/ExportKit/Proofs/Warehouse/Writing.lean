import ExportKit.Proofs.FileSystem.Effects
import ExportKit.Proofs.Table.FileNames
import ExportKit.Warehouse.Writing

/-!
Writing the documents of a table puts one entry after the other into its metadata directory, and
changes nothing else. Where the paths are short enough, all of them are written.
-/
namespace ExportKit

namespace FileSystem

variable {fs fs' fs'' : FileSystem} {dir : Location} {name : Name} {entry : Entry}
  {files : List (Name × Entry)}

/-- An entry is put into a directory. -/
structure Puts (dir : Location) (name : Name) (entry : Entry) (fs fs' : FileSystem) : Prop where
  entry_eq : fs'.entryAt? (dir ++ [name]) = some entry
  changesOnly : ChangesOnly (dir ++ [name]) fs fs'
  keepsPaths : KeepsPaths fs fs'

/-- Entries are put into a directory one after the other. -/
inductive PutsAll (dir : Location) : List (Name × Entry) → FileSystem → FileSystem → Prop where
  | nil (fs : FileSystem) : PutsAll dir [] fs fs
  | cons {name : Name} {entry : Entry} {rest : List (Name × Entry)} {fs fs' fs'' : FileSystem}
      (first : Puts dir name entry fs fs') (others : PutsAll dir rest fs' fs'') :
      PutsAll dir ((name, entry) :: rest) fs fs''

namespace PutsAll

/-- Entries put into a directory leave all paths to directories as they were. -/
theorem keepsPaths (h : PutsAll dir files fs fs') : KeepsPaths fs fs' := by
  induction h with
  | nil fs => exact .refl fs
  | cons first _ ih => exact first.keepsPaths.trans ih

/-- Entries put into a directory change nothing outside of it. -/
theorem changesOnly (h : PutsAll dir files fs fs') : ChangesOnly dir fs fs' := by
  induction h with
  | nil fs => exact .refl dir fs
  | cons first _ ih => exact first.changesOnly.of_append.trans ih

/-- Entries with other names stay as they are. -/
theorem entry_of_not_mem (h : PutsAll dir files fs fs') (hName : name ∉ files.map (·.1)) :
    fs'.entryAt? (dir ++ [name]) = fs.entryAt? (dir ++ [name]) := by
  induction h with
  | nil => rfl
  | cons first _ ih =>
      obtain ⟨hFirst, hRest⟩ := not_or.mp (mt List.mem_cons.mpr hName)
      exact (ih hRest).trans (first.changesOnly.entry_of_ne hFirst)

/-- If the names differ, all entries are there in the end. -/
theorem entry_of_mem (h : PutsAll dir files fs fs') (hNames : (files.map (·.1)).Nodup)
    (hFile : (name, entry) ∈ files) : fs'.entryAt? (dir ++ [name]) = some entry := by
  induction h with
  | nil => cases hFile
  | cons first others ih =>
      obtain ⟨hFirst, hRest⟩ := List.nodup_cons.mp hNames
      rcases List.mem_cons.mp hFile with hEq | hFile
      · obtain ⟨rfl, rfl⟩ := Prod.mk.inj hEq
        exact (others.entry_of_not_mem hFirst).trans first.entry_eq
      · exact ih hRest hFile

end PutsAll

end FileSystem

namespace Warehouse

open FileSystem
open Table (Documents)
open Table.Documents (directoryName fileText pointerFileName versionFileName versionHint
  versionHintFileName)

namespace Activity

variable {α β : Type}

/-- An activity of two parts fails as the first does, or goes on in the state that it leaves. -/
theorem bind_apply (action : Activity α) (next : α → Activity β) (fs : FileSystem) :
    (action >>= next) fs =
      match action fs with
      | (.ok value, changed) => next value changed
      | (.error failure, changed) => (.error failure, changed) := by
  change (match action fs with
    | (result, changed) => ExceptT.bindCont next result changed) = _
  cases action fs with
  | mk result changed => cases result <;> rfl

theorem bind_of_ok {action : Activity α} {next : α → Activity β} {fs fs' : FileSystem} {value : α}
    (h : action fs = (.ok value, fs')) : (action >>= next) fs = next value fs' := by
  rw [bind_apply, h]

theorem bind_of_error {action : Activity α} {next : α → Activity β} {fs fs' : FileSystem}
    {failure : Failure} (h : action fs = (.error failure, fs')) :
    (action >>= next) fs = (.error failure, fs') := by
  rw [bind_apply, h]

theorem get_bind_apply (next : FileSystem → Activity β) (fs : FileSystem) :
    ((get : Activity FileSystem) >>= next) fs = next fs fs := rfl

theorem change_of_ok {path : Path} {operation : FileSystem → Except Fault FileSystem}
    {fs fs' : FileSystem} (h : operation fs = .ok fs') :
    change path operation fs = (.ok (), fs') := by
  rw [change, h]

theorem change_of_error {path : Path} {operation : FileSystem → Except Fault FileSystem}
    {fs : FileSystem} {fault : Fault} (h : operation fs = .error fault) :
    change path operation fs = (.error (.io path fault), fs) := by
  rw [change, h]

theorem makeDirAll_apply (path : Path) (fs : FileSystem) :
    makeDirAll path fs =
      (Failure.ofOperation path (fs.makeDirAll path).2, (fs.makeDirAll path).1) := rfl

theorem makeDirAll_of_ok {path : Path} {fs fs' : FileSystem}
    (h : fs.makeDirAll path = (fs', .ok ())) : makeDirAll path fs = (.ok (), fs') := by
  rw [makeDirAll_apply, h]
  rfl

theorem change_eq_ok {path : Path} {operation : FileSystem → Except Fault FileSystem}
    {fs fs' : FileSystem} (h : change path operation fs = (.ok (), fs')) :
    operation fs = .ok fs' := by
  rw [change] at h
  split at h
  next changed hChanged =>
    cases h
    exact hChanged
  next => cases h

/-- An operation that is refused changes nothing. -/
theorem change_eq_error {path : Path} {operation : FileSystem → Except Fault FileSystem}
    {fs fs' : FileSystem} {failure : Failure}
    (h : change path operation fs = (.error failure, fs')) :
    fs' = fs ∧ ∃ fault, failure = .io path fault := by
  rw [change] at h
  split at h
  next => cases h
  next fault _ =>
    cases h
    exact ⟨rfl, fault, rfl⟩

/-- An activity of two parts comes to an end in one of two ways. -/
theorem bind_eq {action : Activity α} {next : α → Activity β} {fs after : FileSystem}
    {result : Except Failure β} (h : (action >>= next) fs = (result, after)) :
    (∃ failure, action fs = (.error failure, after) ∧ result = .error failure) ∨
      ∃ value middle, action fs = (.ok value, middle) ∧ next value middle = (result, after) := by
  rw [bind_apply] at h
  split at h
  next value middle hAction => exact .inr ⟨value, middle, hAction, h⟩
  next failure middle hAction =>
    obtain ⟨rfl, rfl⟩ := Prod.mk.inj h
    exact .inl ⟨failure, hAction, rfl⟩

theorem bind_eq_error {action : Activity α} {next : α → Activity β} {fs after : FileSystem}
    {failure : Failure} (h : (action >>= next) fs = (.error failure, after)) :
    action fs = (.error failure, after) ∨
      ∃ value middle, action fs = (.ok value, middle) ∧
        next value middle = (.error failure, after) := by
  rcases bind_eq h with ⟨_, hAction, hFailure⟩ | hNext
  · cases hFailure
    exact .inl hAction
  · exact .inr hNext

theorem bind_eq_ok {action : Activity α} {next : α → Activity β} {fs after : FileSystem} {value : β}
    (h : (action >>= next) fs = (.ok value, after)) :
    ∃ first middle, action fs = (.ok first, middle) ∧ next first middle = (.ok value, after) := by
  rcases bind_eq h with ⟨_, -, hFailure⟩ | hNext
  · cases hFailure
  · exact hNext

end Activity

/-- The directory of the documents of a table as runs leave it: the pointer is the link that they
make, and everything else is a file. -/
structure IsTidy (fs : FileSystem) (dir : Location) : Prop where
  isDir : fs.entryAt? dir = some .dir
  pointer : ∀ found, fs.entryAt? (dir ++ [Name.ofString pointerFileName]) = some found →
    found = .link (.ofString versionFileName)
  file : ∀ name, name ≠ Name.ofString pointerFileName → ∀ found,
    fs.entryAt? (dir ++ [name]) = some found → ∃ content, found = .file content

/-- An entry as runs put it into such a directory. -/
def IsTidyEntry (name : Name) (entry : Entry) : Prop :=
  if name = Name.ofString pointerFileName then entry = .link (.ofString versionFileName)
  else ∃ content, entry = .file content

/-- A directory of documents with a path to it. -/
structure IsReady (fs : FileSystem) (path : Path) (links : Nat) (dir : Location) : Prop where
  isTidy : IsTidy fs dir
  reaches : Reaches fs path links dir

section Steps

variable {fs fs' : FileSystem} {path : Path} {links : Nat} {dir : Location} {name : Name}

/-- An entry that runs put into a tidy directory leaves it tidy. -/
theorem IsTidy.of_puts {entry : Entry} (h : IsTidy fs dir) (hPuts : Puts dir name entry fs fs')
    (hEntry : IsTidyEntry name entry) : IsTidy fs' dir := by
  have hChanges := hPuts.changesOnly
  refine ⟨hChanges.entry_dir.trans h.isDir, fun found hFound => ?_, fun other hOther found hFound => ?_⟩
  · by_cases hName : Name.ofString pointerFileName = name
    · rw [hName, hPuts.entry_eq, Option.some_inj] at hFound
      rw [IsTidyEntry, if_pos hName.symm] at hEntry
      exact hFound ▸ hEntry
    · exact h.pointer found (hChanges.entry_of_ne hName ▸ hFound)
  · by_cases hName : other = name
    · rw [hName, hPuts.entry_eq, Option.some_inj] at hFound
      rw [IsTidyEntry, if_neg (hName ▸ hOther)] at hEntry
      exact hFound ▸ hEntry
    · exact h.file other hOther found (hChanges.entry_of_ne hName ▸ hFound)

/-- A directory that is ready stays so when an entry is put into it. -/
theorem IsReady.of_puts {entry : Entry} (h : IsReady fs path links dir)
    (hPuts : Puts dir name entry fs fs') (hEntry : IsTidyEntry name entry) :
    IsReady fs' path links dir :=
  ⟨h.isTidy.of_puts hPuts hEntry, (hPuts.keepsPaths path links dir h.reaches h.isTidy.isDir).1⟩

theorem length_join_le {n : Nat} (hName : name.Fits n) (path : Path) :
    (path.join ⟨name⟩).bytes.length ≤ path.bytes.length + n + 1 := by
  have hJoin := (Path.length_join hName.proper path).2
  have hFits := hName.length_le
  omega

/-- A path with a name added is looked at if it is not too long and holds no zero byte. -/
theorem accepts_join {n : Nat} (hZero : 0 ∉ path.bytes) (hName : name.Fits n)
    (hLength : path.bytes.length + n + 1 ≤ maxPath) : Accepts (path.join ⟨name⟩) := by
  refine ⟨fun hMem => ?_, Path.bytes_join_ne_nil hName.proper path, ?_⟩
  · rcases (Path.mem_bytes_join hName.proper path (by decide)).mp hMem with hMem | hMem
    · exact hZero hMem
    · exact hName.not_mem_zero hMem
  · exact Nat.le_trans (length_join_le hName path) hLength

/-- A file is written where a file or nothing is. -/
theorem exists_puts_file (hReaches : Reaches fs path links dir) (hDir : fs.entryAt? dir = some .dir)
    (hName : name.Fits maxName) (hAccepts : Accepts (path.join ⟨name⟩))
    (hFile : ∀ found, fs.entryAt? (dir ++ [name]) = some found → ∃ content, found = .file content)
    (text : String) :
    ∃ fs', Activity.putFile (path.join ⟨name⟩) text fs = (.ok (), fs') ∧
      Puts dir name (.file (Utf8.encode text.toList)) fs fs' := by
  have hPut := putFile_entry hReaches hDir hName.proper hName.length_le hAccepts hFile
    (Utf8.encode text.toList)
  have hChanges := changesOnly_put hDir name (.file (Utf8.encode text.toList))
  have hKeeps : KeepsPaths fs (fs.put (dir ++ [name]) (.file (Utf8.encode text.toList))) := by
    apply KeepsPaths.of_changesOnly hChanges
    · intro hIsDir
      obtain ⟨content, hContent⟩ := hFile _ hIsDir
      cases hContent
    · intro other last target _ hLink
      obtain ⟨content, hContent⟩ := hFile _ hLink
      cases hContent
  exact ⟨_, Activity.change_of_ok hPut, entryAt?_put_self hDir name _, hChanges, hKeeps⟩

/-- A file is written into a directory of documents. -/
theorem IsReady.putFile (h : IsReady fs path links dir) (hName : name.Fits maxName)
    (hAccepts : Accepts (path.join ⟨name⟩)) (hPointer : name ≠ Name.ofString pointerFileName)
    (text : String) :
    ∃ fs', Activity.putFile (path.join ⟨name⟩) text fs = (.ok (), fs') ∧
      Puts dir name (.file (Utf8.encode text.toList)) fs fs' ∧ IsReady fs' path links dir := by
  obtain ⟨fs', hRun, hPuts⟩ := exists_puts_file h.reaches h.isTidy.isDir hName hAccepts
    (h.isTidy.file name hPointer) text
  refine ⟨fs', hRun, hPuts, h.of_puts hPuts ?_⟩
  rw [IsTidyEntry, if_neg hPointer]
  exact ⟨_, rfl⟩

/-- The link to the metadata leads to no directory if the metadata is none, and no link either. -/
theorem isDeadEnd_of_versionFile
    (h : ∀ found, fs.entryAt? (dir ++ [Name.ofString versionFileName]) = some found →
      found ≠ .dir ∧ ∀ target, found ≠ .link target) :
    IsDeadEnd fs dir (.ofString versionFileName) := by
  have hProper := Table.fits_versionFileName.proper
  exact ⟨Name.ofString versionFileName, Path.isAbsolute_of_isProper hProper,
    Path.segments_singleton hProper, hProper.ne_dot, hProper.ne_dots, h⟩

/-- The pointer leads to a file beside it, so no path to a directory goes through it. -/
theorem IsTidy.isDeadEnd (h : IsTidy fs dir) :
    IsDeadEnd fs dir (.ofString versionFileName) := by
  apply isDeadEnd_of_versionFile
  intro found hFound
  obtain ⟨content, rfl⟩ := h.file _ Table.versionFileName_ne_pointerFileName found hFound
  simp

theorem accepts_versionFileName : Accepts (.ofString versionFileName) :=
  ⟨Table.fits_versionFileName.not_mem_zero, Table.fits_versionFileName.proper.ne_nil,
    Nat.le_trans Table.fits_versionFileName.length_le (by decide)⟩

/-- The pointer is made, in place of an earlier one if need be. -/
theorem IsReady.writePointer (h : IsReady fs path links dir)
    (hAccepts : Accepts (path.child pointerFileName)) :
    ∃ fs', Warehouse.writePointer (path.child pointerFileName) fs = (.ok (), fs') ∧
      Puts dir (Name.ofString pointerFileName) (.link (.ofString versionFileName)) fs fs' ∧
      IsReady fs' path links dir := by
  obtain ⟨hTidy, hReaches⟩ := h
  have hProper := Table.fits_pointerFileName.proper
  have hLength : (Name.ofString pointerFileName).length ≤ maxName :=
    Nat.le_trans Table.fits_pointerFileName.length_le (by decide)
  have hKeeps {fs' : FileSystem}
      (hChanges : ChangesOnly (dir ++ [Name.ofString pointerFileName]) fs fs') :
      KeepsPaths fs fs' := by
    apply KeepsPaths.of_changesOnly hChanges
    · intro hDir
      cases hTidy.pointer _ hDir
    · intro other last target hLocation hLink
      obtain ⟨rfl, -⟩ := List.append_inj' hLocation rfl
      cases hTidy.pointer _ hLink
      exact hTidy.isDeadEnd
  have hReady {fs' : FileSystem} (hPuts : Puts dir (Name.ofString pointerFileName)
      (.link (.ofString versionFileName)) fs fs') : IsReady fs' path links dir := by
    apply IsReady.of_puts ⟨hTidy, hReaches⟩ hPuts
    rw [IsTidyEntry, if_pos rfl]
  have hIsOk := isOk_linkStatus hReaches hTidy.isDir hProper hLength hAccepts
  rw [Warehouse.writePointer, Activity.get_bind_apply]
  cases hEntry : fs.entryAt? (dir ++ [Name.ofString pointerFileName]) with
  | none =>
      have hNot : ¬(fs.linkStatus (path.child pointerFileName)).isOk := fun hOk =>
        hIsOk.mp hOk hEntry
      have hMake := makeLink_entry hReaches hTidy.isDir hProper hLength hAccepts hEntry
        accepts_versionFileName
      have hChanges := changesOnly_put hTidy.isDir (Name.ofString pointerFileName)
        (.link (.ofString versionFileName))
      have hPuts : Puts dir _ _ fs _ :=
        ⟨entryAt?_put_self hTidy.isDir _ _, hChanges, hKeeps hChanges⟩
      rw [if_neg hNot]
      exact ⟨_, Activity.change_of_ok hMake, hPuts, hReady hPuts⟩
  | some found =>
      have hLink := hEntry.trans (congrArg some (hTidy.pointer found hEntry))
      have hOk : (fs.linkStatus (path.child pointerFileName)).isOk := hIsOk.mpr (by simp [hEntry])
      have hRemove := removeFile_entry hReaches hTidy.isDir hProper hLength hAccepts hLink (by simp)
      have hErase := changesOnly_erase hTidy.isDir (Name.ofString pointerFileName)
      obtain ⟨hErased, hErasedDir⟩ := hKeeps hErase path links dir hReaches hTidy.isDir
      have hMake := makeLink_entry hErased hErasedDir hProper hLength hAccepts
        (entryAt?_erase_self hTidy.isDir _) accepts_versionFileName
      have hChanges := hErase.trans (changesOnly_put hErasedDir (Name.ofString pointerFileName)
        (.link (.ofString versionFileName)))
      have hPuts : Puts dir _ _ fs _ :=
        ⟨entryAt?_put_self hErasedDir _ _, hChanges, hKeeps hChanges⟩
      rw [if_pos hOk]
      refine ⟨_, ?_, hPuts, hReady hPuts⟩
      exact (Activity.bind_of_ok (Activity.change_of_ok hRemove)).trans
        (Activity.change_of_ok hMake)

theorem isTidy_of_empty (hDir : fs.entryAt? dir = some .dir)
    (hEmpty : ∀ name : Name, fs.entryAt? (dir ++ [name]) = none) : IsTidy fs dir := by
  refine ⟨hDir, fun found hFound => ?_, fun name _ found hFound => ?_⟩
  · rw [hEmpty] at hFound
    cases hFound
  · rw [hEmpty] at hFound
    cases hFound

/-- The directory of the documents is created if it is not there. -/
theorem makeDirAll_of_isTidy {table : Location} (hReaches : Reaches fs path links table)
    (hDir : fs.entryAt? table = some .dir) (hAccepts : Accepts (path.child directoryName))
    (h : fs.entryAt? (table ++ [Name.ofString directoryName]) = none ∨
      IsTidy fs (table ++ [Name.ofString directoryName])) :
    ∃ fs', Activity.makeDirAll (path.child directoryName) fs = (.ok (), fs') ∧
      IsReady fs' (path.child directoryName) links (table ++ [Name.ofString directoryName]) ∧
      ChangesOnly (table ++ [Name.ofString directoryName]) fs fs' ∧ KeepsPaths fs fs' := by
  have hProper := Table.fits_directoryName.proper
  have hLength : (Name.ofString directoryName).length ≤ maxName :=
    Nat.le_trans Table.fits_directoryName.length_le (by decide)
  rcases h with hNone | hTidy
  · have hMake := makeDirAll_entry hReaches hDir hProper hLength hAccepts hNone
    have hChanges := changesOnly_put hDir (Name.ofString directoryName) (.dir [])
    have hKeeps : KeepsPaths fs (fs.put (table ++ [Name.ofString directoryName]) (.dir [])) :=
      .of_changesOnly hChanges (by simp [hNone]) (by simp [hNone])
    have hMade := entryAt?_put_self hDir (Name.ofString directoryName) (.dir [])
    have hEmpty (name : Name) : (fs.put (table ++ [Name.ofString directoryName])
        (.dir [])).entryAt? (table ++ [Name.ofString directoryName] ++ [name]) = none := by
      rw [List.append_assoc]
      exact entryAt?_put_append hDir (Name.ofString directoryName) (.dir []) [name]
    refine ⟨_, ?_, ⟨isTidy_of_empty hMade hEmpty, ?_⟩, hChanges, hKeeps⟩
    · exact Activity.makeDirAll_of_ok hMake
    · exact (hKeeps path links table hReaches hDir).1.join hProper hLength hMade
        (fun _ hLink => by cases hLink)
  · have hMake := makeDirAll_dir hReaches hDir hProper hLength hAccepts hTidy.isDir
    refine ⟨fs, ?_, ⟨hTidy, ?_⟩, .refl _ fs, .refl fs⟩
    · exact Activity.makeDirAll_of_ok hMake
    · exact hReaches.join hProper hLength hTidy.isDir (by simp)

end Steps

/-- The entries that hold the documents of a table, in the order in which they are written. -/
def filesOf (documents : Documents) : List (Name × Entry) :=
  [(Name.ofString versionFileName,
      .file (Utf8.encode (fileText documents.metadata.toJson).toList)),
    (Name.ofString pointerFileName, .link (.ofString versionFileName)),
    (Name.ofString versionHintFileName, .file (Utf8.encode versionHint.toList)),
    (Name.ofString documents.manifestFileName,
      .file (Utf8.encode (fileText documents.manifest.toJson).toList)),
    (Name.ofString documents.manifestListFileName,
      .file (Utf8.encode (fileText documents.manifestList.toJson).toList))]

/-- The documents have the file names that a stamp gives out. -/
structure IsNamedBy (documents : Documents) (stamp : Table.Stamp) : Prop where
  manifest : documents.manifestFileName = stamp.manifestFileName
  manifestList : documents.manifestListFileName = stamp.manifestListFileName

/-- The files of a table have different names, whatever the stamp is. -/
theorem nodup_filesOf {documents : Documents} {stamp : Table.Stamp}
    (h : IsNamedBy documents stamp) : ((filesOf documents).map (·.1)).Nodup := by
  have hNames : (filesOf documents).map (·.1) = stamp.fileNames := by
    rw [Table.Stamp.fileNames, ← h.manifest, ← h.manifestList]
    rfl
  rw [hNames]
  exact stamp.nodup_fileNames

/-- The documents of a table are there, each in its file, with the pointer and the hint. -/
def Holds (fs : FileSystem) (dir : Location) (documents : Documents) : Prop :=
  ∀ name entry, (name, entry) ∈ filesOf documents → fs.entryAt? (dir ++ [name]) = some entry

/-- What a run that writes documents makes of the directory of the documents. -/
structure IsWritten (fs after : FileSystem) (dir : Location) (documents : Documents) : Prop where
  holds : Holds after dir documents
  isTidy : IsTidy after dir
  changesOnly : ChangesOnly dir fs after
  keepsPaths : KeepsPaths fs after

/-- All documents of a table are written if its path leaves enough room for the longest of their
names. The directory of the documents is created if need be, and nothing outside of it changes. -/
theorem writeDocuments_of_fits {fs : FileSystem} {tableDir : Path} {links : Nat} {table : Location}
    {documents : Documents} {stamp : Table.Stamp} (hNamed : IsNamedBy documents stamp)
    (hReaches : Reaches fs tableDir links table) (hDir : fs.entryAt? table = some .dir)
    (hTidy : fs.entryAt? (table ++ [Name.ofString directoryName]) = none ∨
      IsTidy fs (table ++ [Name.ofString directoryName]))
    (hZero : 0 ∉ tableDir.bytes) (hLength : tableDir.bytes.length + 60 ≤ maxPath) :
    ∃ after, writeDocuments tableDir documents fs =
        (.ok (.ofTable tableDir documents), after) ∧
      IsWritten fs after (table ++ [Name.ofString directoryName]) documents := by
  have hDirAccepts : Accepts (tableDir.child directoryName) :=
    accepts_join hZero Table.fits_directoryName (by omega)
  have hAccepts {name : Name} (hName : name.Fits 50) :
      Accepts ((tableDir.child directoryName).join ⟨name⟩) := by
    have hJoin : (tableDir.child directoryName).bytes.length ≤ tableDir.bytes.length + 8 + 1 :=
      length_join_le Table.fits_directoryName tableDir
    exact accepts_join hDirAccepts.not_mem_zero hName (by omega)
  have hVersion := Table.fits_versionFileName
  have hHint := Table.fits_versionHintFileName
  have hManifest := hNamed.manifest ▸ Table.fits_manifestFileName stamp
  have hList := hNamed.manifestList ▸ Table.fits_manifestListFileName stamp
  have hNodup := nodup_filesOf hNamed
  have hPointer : ∀ name ∈ [Name.ofString versionFileName, Name.ofString versionHintFileName,
      Name.ofString documents.manifestFileName, Name.ofString documents.manifestListFileName],
      name ≠ Name.ofString pointerFileName := by
    simp only [filesOf, List.map_cons, List.map_nil, List.nodup_cons, List.mem_cons,
      List.not_mem_nil, or_false, not_or] at hNodup
    obtain ⟨⟨hVersion, -⟩, ⟨hHint, hManifest, hList⟩, -⟩ := hNodup
    simp [hVersion, Ne.symm hHint, Ne.symm hManifest, Ne.symm hList]
  obtain ⟨fs₀, hMake, hReady, hChanges, hKeeps⟩ :=
    makeDirAll_of_isTidy hReaches hDir hDirAccepts hTidy
  obtain ⟨fs₁, hRun₁, hPuts₁, hReady⟩ := hReady.putFile (hVersion.mono (by decide))
    (hAccepts (hVersion.mono (by decide))) (hPointer _ (by simp))
    (fileText documents.metadata.toJson)
  obtain ⟨fs₂, hRun₂, hPuts₂, hReady⟩ :=
    hReady.writePointer (hAccepts (Table.fits_pointerFileName.mono (by decide)))
  obtain ⟨fs₃, hRun₃, hPuts₃, hReady⟩ := hReady.putFile (hHint.mono (by decide))
    (hAccepts (hHint.mono (by decide))) (hPointer _ (by simp)) versionHint
  obtain ⟨fs₄, hRun₄, hPuts₄, hReady⟩ := hReady.putFile (hManifest.mono (by decide))
    (hAccepts hManifest) (hPointer _ (by simp)) (fileText documents.manifest.toJson)
  obtain ⟨fs₅, hRun₅, hPuts₅, hReady⟩ := hReady.putFile (hList.mono (by decide))
    (hAccepts hList) (hPointer _ (by simp)) (fileText documents.manifestList.toJson)
  have hAll : PutsAll (table ++ [Name.ofString directoryName]) (filesOf documents) fs₀ fs₅ :=
    .cons hPuts₁ (.cons hPuts₂ (.cons hPuts₃ (.cons hPuts₄ (.cons hPuts₅ (.nil fs₅)))))
  refine ⟨fs₅, ?_, fun _ _ hFile => hAll.entry_of_mem hNodup hFile, hReady.isTidy,
    hChanges.trans hAll.changesOnly, hKeeps.trans hAll.keepsPaths⟩
  rw [writeDocuments, Activity.bind_of_ok hMake]
  exact (Activity.bind_of_ok hRun₁).trans ((Activity.bind_of_ok hRun₂).trans
    ((Activity.bind_of_ok hRun₃).trans ((Activity.bind_of_ok hRun₄).trans
      (Activity.bind_of_ok hRun₅))))

/-- Where the path of the directory is short enough and that of the metadata is not, an empty
directory is left. -/
theorem writeDocuments_of_long {fs : FileSystem} {tableDir : Path} {links : Nat} {table : Location}
    (documents : Documents) (hReaches : Reaches fs tableDir links table)
    (hDir : fs.entryAt? table = some .dir)
    (hNone : fs.entryAt? (table ++ [Name.ofString directoryName]) = none)
    (hAccepts : Accepts (tableDir.child directoryName))
    (hLong : ¬Accepts ((tableDir.child directoryName).child versionFileName)) :
    ∃ failure, writeDocuments tableDir documents fs =
      (.error failure, fs.put (table ++ [Name.ofString directoryName]) (.dir [])) := by
  have hMake := makeDirAll_entry hReaches hDir Table.fits_directoryName.proper
    (Nat.le_trans Table.fits_directoryName.length_le (by decide)) hAccepts hNone
  have hMakeDir : Activity.makeDirAll (tableDir.child directoryName) fs =
      (.ok (), fs.put (table ++ [Name.ofString directoryName]) (.dir [])) :=
    Activity.makeDirAll_of_ok hMake
  have hPut (text : String) : ∃ failure,
      Activity.putFile ((tableDir.child directoryName).child versionFileName) text
        (fs.put (table ++ [Name.ofString directoryName]) (.dir [])) =
          (.error failure, fs.put (table ++ [Name.ofString directoryName]) (.dir [])) := by
    rw [Activity.putFile, Activity.change, FileSystem.putFile]
    cases hResolve : (fs.put (table ++ [Name.ofString directoryName]) (.dir [])).resolve .create
        ((tableDir.child directoryName).child versionFileName) with
    | ok spot => exact absurd (accepts_of_resolve hResolve) hLong
    | error fault => exact ⟨_, rfl⟩
  obtain ⟨failure, hFailure⟩ := hPut (fileText documents.metadata.toJson)
  refine ⟨failure, ?_⟩
  rw [writeDocuments, Activity.bind_of_ok hMakeDir]
  exact Activity.bind_of_error hFailure

end Warehouse

end ExportKit
