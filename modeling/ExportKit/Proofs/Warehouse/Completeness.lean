import ExportKit.Proofs.Table.Documents
import ExportKit.Proofs.Warehouse.Generation

/-!
A table whose documents were written is complete: from the pointer on, each document names the next
one, and that is there and can be read.
-/
namespace ExportKit.Warehouse

open FileSystem
open Table (DataFile Documents Kind Manifest ManifestList Metadata Stamp)
open Table.Documents (directoryName pointerFileName versionFileName versionHint
  versionHintFileName)

def tableLocation (warehouse : Location) (kind : Kind) : Location :=
  warehouse ++ [Name.ofString kind.name]

def documentsLocation (warehouse : Location) (kind : Kind) : Location :=
  tableLocation warehouse kind ++ [Name.ofString directoryName]

def dataLocation (warehouse : Location) (kind : Kind) : Location :=
  tableLocation warehouse kind ++ [Name.ofString Scan.dataDirName]

/-- A directory holds a file of a given name, and that reads as a value. -/
def ReadsAs {α : Type} (fs : FileSystem) (dir : Location) (fileName : String)
    (reader : Json.Reader α) (value : α) : Prop :=
  ∃ content, fs.entryAt? (dir ++ [Name.ofString fileName]) = some (.file content) ∧
    Documents.readContent? reader content = some value

/-- A directory of documents that can be read: the pointer leads to the metadata, whose current
snapshot is that of the main branch and names a manifest list beside it, which in turn names the
only manifest of the snapshot. -/
structure IsComplete (fs : FileSystem) (dir : Location) : Prop where
  pointer : fs.entryAt? (dir ++ [Name.ofString pointerFileName]) =
    some (.link (.ofString versionFileName))
  versionHint : fs.entryAt? (dir ++ [Name.ofString versionHintFileName]) =
    some (.file (Utf8.encode versionHint.toList))
  documents : ∃ metadata snapshot manifestList manifestFile manifest,
    ReadsAs fs dir versionFileName Metadata.reader metadata ∧
    metadata.currentSnapshot? = some snapshot ∧
    metadata.refs.get? Metadata.mainBranch = some ⟨snapshot.snapshotId⟩ ∧
    ReadsAs fs dir snapshot.manifestList ManifestList.reader manifestList ∧
    manifestList.manifestLength = 1 ∧ manifestList.manifests = [manifestFile] ∧
    manifestFile.addedSnapshotId = snapshot.snapshotId ∧
    ReadsAs fs dir manifestFile.manifestPath Manifest.reader manifest

/-- The main branch of the metadata of an exported table. -/
theorem get?_mainBranch (ref : Table.SnapshotRef) :
    (SortedMap.ofList [(Metadata.mainBranch, ref)]).get? Metadata.mainBranch = some ref := by
  simp [SortedMap.ofList, SortedMap.insert, SortedMap.insertEntry, SortedMap.empty, SortedMap.get?]

/-- Documents that were built about some files make up a complete table. -/
theorem isComplete_of_holds {config : Configuration} {fs after : FileSystem} {kind : Kind}
    {files : List DataFile} {stamp : Stamp} {dir : Location}
    (h : Holds after dir (documentsFor config fs kind files stamp)) : IsComplete after dir := by
  have hMetadata : ReadsAs after dir versionFileName Metadata.reader
      (documentsFor config fs kind files stamp).metadata :=
    ⟨_, h _ _ (.head _), Documents.readContent?_metadata kind _ _ files stamp⟩
  have hManifest : ReadsAs after dir stamp.manifestFileName Manifest.reader
      (documentsFor config fs kind files stamp).manifest :=
    ⟨_, h _ _ (.tail _ (.tail _ (.tail _ (.head _)))), Documents.readContent?_manifest _⟩
  have hList : ReadsAs after dir stamp.manifestListFileName ManifestList.reader
      (documentsFor config fs kind files stamp).manifestList :=
    ⟨_, h _ _ (.tail _ (.tail _ (.tail _ (.tail _ (.head _))))),
      Documents.readContent?_manifestList _⟩
  have hCurrent (snapshot : Table.Snapshot) (hId : snapshot.snapshotId = stamp.snapshotId) :
      [snapshot].find? (fun snapshot => snapshot.snapshotId = stamp.snapshotId) =
        some snapshot := by
    simp [hId]
  exact ⟨h _ _ (.tail _ (.head _)), h _ _ (.tail _ (.tail _ (.head _))),
    _, _, _, _, _, hMetadata, hCurrent _ rfl, get?_mainBranch ⟨stamp.snapshotId⟩, hList, rfl, rfl,
    rfl, hManifest⟩

/-- A table stays complete as long as nothing that its directory holds is changed or removed. -/
theorem IsComplete.mono {fs fs' : FileSystem} {dir : Location} (h : IsComplete fs dir)
    (hKeeps : ∀ location entry, dir <+: location → fs.entryAt? location = some entry →
      fs'.entryAt? location = some entry) : IsComplete fs' dir := by
  have hEntry (name : Name) (entry : Entry) (hEntry : fs.entryAt? (dir ++ [name]) = some entry) :
      fs'.entryAt? (dir ++ [name]) = some entry :=
    hKeeps _ entry (List.prefix_append dir [name]) hEntry
  have hReads {α : Type} {fileName : String} {reader : Json.Reader α} {value : α}
      (hReads : ReadsAs fs dir fileName reader value) : ReadsAs fs' dir fileName reader value := by
    obtain ⟨content, hContent, hValue⟩ := hReads
    exact ⟨content, hEntry _ _ hContent, hValue⟩
  obtain ⟨metadata, snapshot, manifestList, manifestFile, manifest, hMetadata, hSnapshot, hMain,
    hList, hLength, hManifests, hId, hManifest⟩ := h.documents
  exact ⟨hEntry _ _ h.pointer, hEntry _ _ h.versionHint, metadata, snapshot, manifestList,
    manifestFile, manifest, hReads hMetadata, hSnapshot, hMain, hReads hList, hLength, hManifests,
    hId, hReads hManifest⟩

/-- A directory stays tidy if nothing below it changes. -/
theorem IsTidy.congr {fs fs' : FileSystem} {dir : Location} (h : IsTidy fs dir)
    (hSame : ∀ location, dir <+: location → fs'.entryAt? location = fs.entryAt? location) :
    IsTidy fs' dir := by
  have hEntry (name : Name) : fs'.entryAt? (dir ++ [name]) = fs.entryAt? (dir ++ [name]) :=
    hSame _ (List.prefix_append dir [name])
  obtain ⟨hDir, hPointer, hFile⟩ := h
  constructor
  · rw [hSame dir (List.prefix_refl dir), hDir]
  · simpa only [hEntry] using hPointer
  · simpa only [hEntry] using hFile

/-- Documents stay if nothing below their directory changes. -/
theorem Holds.congr {fs fs' : FileSystem} {dir : Location} {documents : Documents}
    (h : Holds fs dir documents)
    (hSame : ∀ location, dir <+: location → fs'.entryAt? location = fs.entryAt? location) :
    Holds fs' dir documents := by
  intro name entry hFile
  rw [hSame _ (List.prefix_append dir [name]), h name entry hFile]

/-! The places of the tables of a warehouse. -/

variable {warehouse location : Location} {kind other : Kind}

/-- A location lies below one entry of an entry only. -/
theorem eq_of_below {first second first' second' : Name}
    (h : warehouse ++ [first, second] <+: location)
    (h' : warehouse ++ [first', second'] <+: location) : first = first' ∧ second = second' := by
  have hPrefix := List.prefix_of_prefix_length_le h h' (by simp)
  have hEq := List.append_cancel_left (hPrefix.eq_of_length (by simp))
  simpa using hEq

theorem kind_name_injective (h : kind.name = other.name) : kind = other := by
  cases kind <;> cases other <;> first | rfl | exact absurd h (by decide)

/-- A location lies below the directory of one table only. -/
theorem eq_of_tableLocation (h : tableLocation warehouse kind <+: location)
    (h' : tableLocation warehouse other <+: location) : kind = other := by
  have hPrefix := List.prefix_of_prefix_length_le h h' (by simp [tableLocation])
  have hEq := List.append_cancel_left (hPrefix.eq_of_length (by simp [tableLocation]))
  exact kind_name_injective (Name.ofString_injective (List.cons.inj hEq).1)

/-- What lies in the documents of a table lies neither in those of another one nor in any data
directory. -/
theorem not_prefix_of_documents (h : documentsLocation warehouse kind <+: location) :
    (kind ≠ other → ¬documentsLocation warehouse other <+: location) ∧
      ¬dataLocation warehouse other <+: location := by
  simp only [documentsLocation, dataLocation, tableLocation, List.append_assoc,
    List.cons_append, List.nil_append] at h ⊢
  constructor
  · intro hKind hOther
    exact hKind (kind_name_injective (Name.ofString_injective (eq_of_below h hOther).1))
  · intro hData
    exact absurd (Name.ofString_injective (eq_of_below h hData).2) (by decide)

/-- The directory of a table lies neither in any documents nor in any data directory. -/
theorem not_prefix_of_table : ¬documentsLocation warehouse other <+: tableLocation warehouse kind ∧
    ¬dataLocation warehouse other <+: tableLocation warehouse kind := by
  constructor
  all_goals
    intro hPrefix
    have hLength := hPrefix.length_le
    simp [documentsLocation, dataLocation, tableLocation] at hLength

end ExportKit.Warehouse
