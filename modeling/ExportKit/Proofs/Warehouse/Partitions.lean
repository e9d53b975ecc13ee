import ExportKit.Proofs.Warehouse.Inspection
import ExportKit.Proofs.Warehouse.Readable

/-!
Warehouses whose tables have one partition each: what a scan finds there, and which of the files can
be read.
-/
namespace ExportKit.Warehouse

open FileSystem
open Table (FileStats Kind)

variable {kind : Kind} {pair : String × String}

def partitionName : String := "height=0-9"

/-- The directory of a table whose partition has the given entries. -/
def partitionedTable (entries : List (Name × Node)) : Node :=
  .dir [(Name.ofString Scan.dataDirName, .dir [(Name.ofString partitionName, .dir entries)])]

/-- A warehouse in the working directory. Tables without contents are not there. -/
def partitionTree (contents : Kind → Option (List (Name × Node))) : FileSystem where
  rootEntries := Kind.all.filterMap fun kind =>
    (contents kind).map fun entries => (Name.ofString kind.name, partitionedTable entries)
  workingDir := .existing []
  output := []

/-- The standard configuration there, with an inspection of footers. -/
def inspecting : Configuration := { hereConfiguration 0 with inspectParquet := true }

/-- Partitions that hold files with short names. -/
def AreFiles (contents : Kind → Option (List (Name × Node))) : Prop :=
  ∀ kind entries, contents kind = some entries → ∀ entry ∈ entries,
    entry.1.Fits 9 ∧ ∃ content, entry.2 = .file content

section Partition

variable {contents others : Kind → Option (List (Name × Node))} {entries : List (Name × Node)}
  {location : Location} {content : List UInt8} {fileName : String} {node : Node}

theorem fits_partitionName : (Name.ofString partitionName).Fits 10 :=
  ⟨Name.isProper_ofString (by decide) (by decide) (by decide), by decide, by decide⟩

/-- A table is found where it has contents. -/
theorem child?_partitionTree (contents : Kind → Option (List (Name × Node))) (kind : Kind) :
    (partitionTree contents).root.child? (Name.ofString kind.name) =
      (contents kind).map partitionedTable := by
  have hLookup (kinds : List Kind) :
      (kinds.filterMap fun kind => (contents kind).map fun entries =>
        (Name.ofString kind.name, partitionedTable entries)).lookup (Name.ofString kind.name) =
      if kind ∈ kinds then (contents kind).map partitionedTable else none := by
    induction kinds with
    | nil => rfl
    | cons first rest ih =>
        by_cases hKind : first = kind
        · subst hKind
          cases hContents : contents first with
          | none => simp [hContents, ih]
          | some entries => simp [hContents]
        · have hName : (Name.ofString kind.name == Name.ofString first.name) = false :=
            beq_eq_false_iff_ne.mpr fun hEq =>
              hKind (kind_name_injective (Name.ofString_injective hEq)).symm
          cases hContents : contents first with
          | none => simp [hContents, ih, Ne.symm hKind]
          | some entries => simp [hContents, List.lookup_cons, hName, ih, Ne.symm hKind]
  rw [Node.child?, root, Node.entries, partitionTree, hLookup, if_pos]
  cases kind <;> decide

/-- What stands in a table. -/
theorem at?_partitionTree (contents : Kind → Option (List (Name × Node))) (kind : Kind)
    (below : Location) : (partitionTree contents).at? (tableLocation [] kind ++ below) =
      (contents kind).bind fun entries => (partitionedTable entries).at? below := by
  change Option.bind _ _ = _
  rw [child?_partitionTree]
  cases contents kind <;> rfl

/-- What there is: the directories down to the partitions, and what stands in these. -/
theorem at?_partitionTree_eq_some (h : (partitionTree contents).at? location = some node) :
    location = [] ∧ node.isDir ∨ ∃ kind entries, contents kind = some entries ∧
      (location = tableLocation [] kind ∧ node.isDir ∨
        location = dataLocation [] kind ∧ node.isDir ∨
        ∃ below, location = dataLocation [] kind ++ Name.ofString partitionName :: below ∧
          (Node.dir entries).at? below = some node) := by
  cases location with
  | nil =>
      cases h
      exact .inl ⟨rfl, rfl⟩
  | cons name below =>
      rw [FileSystem.at?, Node.at?, Option.bind_eq_some_iff] at h
      obtain ⟨table, hTable, hBelow⟩ := h
      obtain ⟨kind, -, hEntry⟩ := List.mem_filterMap.mp (Node.mem_of_child? hTable)
      obtain ⟨entries, hContents, hPair⟩ := Option.map_eq_some_iff.mp hEntry
      obtain ⟨rfl, rfl⟩ := Prod.mk.inj hPair
      refine .inr ⟨kind, entries, hContents, ?_⟩
      rcases at?_single hBelow with ⟨rfl, rfl⟩ | ⟨inData, rfl, hData⟩
      · exact .inl ⟨rfl, rfl⟩
      rcases at?_single hData with ⟨rfl, rfl⟩ | ⟨inPartition, rfl, hPartition⟩
      · exact .inr (.inl ⟨rfl, rfl⟩)
      · exact .inr (.inr ⟨inPartition, rfl, hPartition⟩)

/-- Outside of the data directories such warehouses hold directories only. -/
theorem isInData_or_of_entryAt? {entry : Entry}
    (h : (partitionTree contents).entryAt? location = some entry) :
    IsInData [] location ∨ entry = .dir ∧ ∀ others : Kind → Option (List (Name × Node)),
      (∀ kind, (others kind).isSome = (contents kind).isSome) →
        (partitionTree others).entryAt? location = some .dir := by
  obtain ⟨node, hNode, rfl⟩ := Option.map_eq_some_iff.mp h
  -- Where a table is in one of them it is in the other.
  have hOther {below : Location} (kind : Kind) (hContents : (contents kind).isSome)
      (hBelow : ∀ entries, ((partitionedTable entries).at? below).map Node.entry = some .dir)
      {others : Kind → Option (List (Name × Node))}
      (hSome : ∀ kind, (others kind).isSome = (contents kind).isSome) :
      (partitionTree others).entryAt? (tableLocation [] kind ++ below) = some .dir := by
    rw [← hSome] at hContents
    obtain ⟨entries, hEntries⟩ := Option.isSome_iff_exists.mp hContents
    rw [entryAt?, at?_partitionTree, hEntries, Option.bind_some, hBelow]
  rcases at?_partitionTree_eq_some hNode with ⟨rfl, hDir⟩ | ⟨kind, entries, hContents, hPlace⟩
  · exact .inr ⟨(Node.entry_eq_dir_iff node).mpr hDir, fun _ _ => rfl⟩
  have hSome : (contents kind).isSome := Option.isSome_of_eq_some hContents
  rcases hPlace with ⟨rfl, hDir⟩ | ⟨rfl, hDir⟩ | ⟨below, rfl, -⟩
  · refine .inr ⟨(Node.entry_eq_dir_iff node).mpr hDir, fun others hOthers => ?_⟩
    exact hOther kind hSome (fun _ => rfl) hOthers
  · refine .inr ⟨(Node.entry_eq_dir_iff node).mpr hDir, fun others hOthers => ?_⟩
    exact hOther kind hSome (fun _ => rfl) hOthers
  · exact .inl ⟨kind, _, below, rfl⟩

theorem isDepot_partitionTree (contents : Kind → Option (List (Name × Node))) :
    IsDepot inspecting (partitionTree contents) [] maxLinks := by
  refine ⟨reaches_here rfl 0, rfl, fun location target _ hLink => ?_⟩
  rcases isInData_or_of_entryAt? hLink with hInData | ⟨hDir, -⟩
  · exact .inr hInData
  · cases hDir

theorem isDir_inspecting (contents : Kind → Option (List (Name × Node))) :
    (partitionTree contents).isDir inspecting.warehouse :=
  (isDepot_partitionTree contents).reaches.isDir_of_accepts rfl
    (accepts_here (show 0 + 1 ≤ maxPath by decide))

theorem accepts_partition (kind : Kind) :
    Accepts ((inspecting.dataDir kind).child partitionName) := by
  cases kind <;> exact ⟨by decide, by decide, by decide⟩

theorem accepts_dataFile (kind : Kind) (hName : (Name.ofString fileName).Fits 9) :
    Accepts (inspecting.dataFile kind (partitionName, fileName)) := by
  have hLength : ((inspecting.dataDir kind).child partitionName).bytes.length + 9 + 1 ≤ maxPath := by
    cases kind <;> decide
  exact accepts_join (accepts_partition kind).not_mem_zero hName hLength

/-- The data directory and the partition of a table are found. -/
theorem status_partitionTree (hContents : contents kind = some entries) :
    (partitionTree contents).status (inspecting.dataDir kind) =
        .ok (.dir [(Name.ofString partitionName, .dir entries)]) ∧
      (partitionTree contents).status ((inspecting.dataDir kind).child partitionName) =
        .ok (.dir entries) ∧
      Reaches (partitionTree contents) ((inspecting.dataDir kind).child partitionName) maxLinks
        (dataLocation [] kind ++ [Name.ofString partitionName]) ∧
      (partitionTree contents).at? (dataLocation [] kind ++ [Name.ofString partitionName]) =
        some (.dir entries) := by
  have hDataAccepts : Accepts (inspecting.dataDir kind) :=
    accepts_of_join fits_partitionName.proper (Path.bytes_join_ne_nil isProper_dataDirName _)
      (accepts_partition kind)
  have hTableNode : (partitionTree contents).at? (tableLocation [] kind) =
      some (partitionedTable entries) := by
    have hAt := at?_partitionTree contents kind []
    rw [hContents, List.append_nil] at hAt
    exact hAt
  have hTable : Reaches (partitionTree contents) (inspecting.tableDir kind) maxLinks
      (tableLocation [] kind) := by
    apply (isDepot_partitionTree contents).tableDir
    rw [entryAt?, hTableNode]
    rfl
  obtain ⟨hDataStatus, hData, hDataNode⟩ := status_child hTable hTableNode List.lookup_cons_self
    (fun _ hLink => by cases hLink) (fits_dataDirName.mono (by decide)) hDataAccepts
  exact ⟨hDataStatus, status_child hData hDataNode List.lookup_cons_self
    (fun _ hLink => by cases hLink) (fits_partitionName.mono (by decide)) (accepts_partition kind)⟩

/-- The status of a data file is what the partition holds under its name. -/
theorem status_dataFile (hContents : contents kind = some entries)
    (hChild : (Node.dir entries).child? (Name.ofString fileName) = some node)
    (hName : (Name.ofString fileName).Fits 9) (hLink : ∀ target, node.entry ≠ .link target) :
    (partitionTree contents).status (inspecting.dataFile kind (partitionName, fileName)) =
      .ok node := by
  obtain ⟨-, -, hReaches, hNode⟩ := status_partitionTree hContents
  exact (status_child hReaches hNode hChild hLink (hName.mono (by decide))
    (accepts_dataFile kind hName)).1

/-- A scan asks for entries of partitions only. -/
theorem exists_child_of_isExamined
    (h : Scan.IsExamined (partitionTree contents) (inspecting.dataDir kind) pair) :
    pair.1 = partitionName ∧ ∃ entries, contents kind = some entries ∧
      ∃ node, (Node.dir entries).child? (Name.ofString pair.2) = some node := by
  have hTable := isDir_tableDir_of_dataDir h.isDir_dataDir
  obtain ⟨-, hEntry⟩ := ((isDepot_partitionTree contents).isDir_tableDir kind).mp hTable
  have hAt := at?_partitionTree contents kind []
  rw [List.append_nil] at hAt
  cases hContents : contents kind with
  | none =>
      rw [entryAt?, hAt, hContents] at hEntry
      cases hEntry
  | some entries =>
      obtain ⟨hData, hPartition, -⟩ := status_partitionTree hContents
      obtain ⟨_, hStatus, -, -, hDir⟩ := h.hasDir
      cases hData.symm.trans hStatus
      obtain ⟨child, hChild⟩ := Option.ne_none_iff_exists'.mp hDir
      have hMem := Node.mem_of_child? hChild
      rw [List.mem_singleton, Prod.mk.injEq] at hMem
      have hName := Name.ofString_injective hMem.1
      refine ⟨hName, entries, rfl, ?_⟩
      obtain ⟨_, hStatus, -, -, hFile⟩ := h.hasFile
      rw [hName] at hStatus
      cases hPartition.symm.trans hStatus
      exact Option.ne_none_iff_exists'.mp hFile

/-- A scan asks for each entry with the right suffix. -/
theorem isExamined_partitionTree (hContents : contents kind = some entries)
    (hChild : (Node.dir entries).child? (Name.ofString fileName) = some node)
    (hName : (Name.ofString fileName).Fits 9) (hCandidate : Scan.IsCandidate fileName) :
    Scan.IsExamined (partitionTree contents) (inspecting.dataDir kind)
      (partitionName, fileName) := by
  have hDirValid := isValid_of_fits (fits_partitionName.mono (show 10 ≤ maxName by decide))
  have hFileValid := isValid_of_fits (hName.mono (show 9 ≤ maxName by decide))
  obtain ⟨hData, hPartition, -⟩ := status_partitionTree hContents
  refine ⟨⟨_, hData, rfl, hDirValid, ?_⟩, ?_, isDir_of_status hPartition,
    ⟨_, hPartition, rfl, hFileValid, ?_⟩, hCandidate⟩
  · simp [Node.child?, Node.entries]
  · exact show partitionName.toList.head? ≠ some '.' by decide
  · simp [hChild]

/-- Whatever a scan asks for is a file of the only partition. -/
theorem exists_content_of_isExamined (hFiles : AreFiles contents)
    (h : Scan.IsExamined (partitionTree contents) (inspecting.dataDir kind) pair) :
    pair.1 = partitionName ∧ ∃ entries content, contents kind = some entries ∧
      (Node.dir entries).child? (Name.ofString pair.2) = some (.file content) ∧
      (partitionTree contents).status (inspecting.dataFile kind pair) = .ok (.file content) := by
  obtain ⟨hName, entries, hContents, node, hChild⟩ := exists_child_of_isExamined h
  obtain ⟨hFits, content, hFile⟩ := hFiles kind entries hContents _ (Node.mem_of_child? hChild)
  obtain rfl : node = .file content := hFile
  obtain ⟨dirName, fileName⟩ := pair
  obtain rfl : dirName = partitionName := hName
  exact ⟨rfl, entries, content, hContents, hChild,
    status_dataFile hContents hChild hFits (fun _ hLink => by cases hLink)⟩

/-- Nothing stops a scan. -/
theorem isClear_partitionTree (hFiles : AreFiles contents) (kind : Kind) :
    IsClear inspecting (partitionTree contents) kind := by
  rintro pair fault ⟨hExamined, hFault⟩
  obtain ⟨-, _, _, -, -, hStatus⟩ := exists_content_of_isExamined hFiles hExamined
  cases hStatus.symm.trans hFault

/-- A scan finds the files in the partition. -/
theorem file_partitionTree_iff (hFiles : AreFiles contents) :
    Scan.IsExamined (partitionTree contents) (inspecting.dataDir kind) pair ∧
        (partitionTree contents).status (inspecting.dataFile kind pair) = .ok (.file content) ↔
      pair.1 = partitionName ∧ Scan.IsCandidate pair.2 ∧ ∃ entries, contents kind = some entries ∧
        (Node.dir entries).child? (Name.ofString pair.2) = some (.file content) := by
  constructor
  · rintro ⟨hExamined, hStatus⟩
    obtain ⟨hName, entries, held, hContents, hChild, hHeld⟩ :=
      exists_content_of_isExamined hFiles hExamined
    cases hStatus.symm.trans hHeld
    exact ⟨hName, hExamined.candidate, entries, hContents, hChild⟩
  · rintro ⟨hName, hCandidate, entries, hContents, hChild⟩
    obtain ⟨hFits, -⟩ := hFiles kind entries hContents _ (Node.mem_of_child? hChild)
    obtain ⟨dirName, fileName⟩ := pair
    obtain rfl : dirName = partitionName := hName
    exact ⟨isExamined_partitionTree hContents hChild hFits hCandidate,
      status_dataFile hContents hChild hFits (fun _ hLink => by cases hLink)⟩

/-- The data files of a table are those of its partition with the right suffix. -/
theorem isFound_partitionTree_iff (hFiles : AreFiles contents) :
    Scan.IsFound (partitionTree contents) (inspecting.dataDir kind) pair ↔
      pair.1 = partitionName ∧ Scan.IsCandidate pair.2 ∧ ∃ content entries,
        contents kind = some entries ∧
          (Node.dir entries).child? (Name.ofString pair.2) = some (.file content) := by
  simp only [Scan.IsFound, ← exists_and_left]
  refine exists_congr fun content => (file_partitionTree_iff hFiles).trans ?_
  simp only [← exists_and_left]

/-- The files that can be read are those with a footer. -/
theorem isReadable_partitionTree_iff (hFiles : AreFiles contents) :
    IsReadable inspecting (partitionTree contents) kind pair content ↔
      (pair.1 = partitionName ∧ Scan.IsCandidate pair.2 ∧ ∃ entries, contents kind = some entries ∧
        (Node.dir entries).child? (Name.ofString pair.2) = some (.file content)) ∧
        (FileStats.ofContent? kind.schema content).isSome := by
  rw [← file_partitionTree_iff hFiles]
  exact ⟨fun ⟨hExamined, hStatus, hFooter⟩ => ⟨⟨hExamined, hStatus⟩, hFooter⟩,
    fun ⟨⟨hExamined, hStatus⟩, hFooter⟩ => ⟨hExamined, hStatus, hFooter⟩⟩

/-- Such a warehouse has neither links nor documents. -/
theorem isUntouched_partitionTree (hFiles : AreFiles contents) :
    IsUntouched (partitionTree contents) [] := by
  constructor
  · intro location target _ hLink
    obtain ⟨node, hNode, hEntry⟩ := Option.map_eq_some_iff.mp hLink
    have hNotDir : ¬node.isDir := by
      rintro hDir
      cases hEntry.symm.trans ((Node.entry_eq_dir_iff node).mpr hDir)
    rcases at?_partitionTree_eq_some hNode with
      ⟨-, hDir⟩ | ⟨kind, entries, hContents, ⟨-, hDir⟩ | ⟨-, hDir⟩ | ⟨below, -, hBelow⟩⟩
    · exact hNotDir hDir
    · exact hNotDir hDir
    · exact hNotDir hDir
    cases below with
    | nil =>
        cases hBelow
        exact hNotDir rfl
    | cons name rest =>
        rw [Node.at?, Option.bind_eq_some_iff] at hBelow
        obtain ⟨child, hChild, hRest⟩ := hBelow
        obtain ⟨-, content, hFile⟩ := hFiles kind entries hContents _ (Node.mem_of_child? hChild)
        obtain rfl : child = .file content := hFile
        cases rest with
        | nil =>
            cases hRest
            cases hEntry
        | cons => cases hRest
  · intro kind
    change (partitionTree contents).entryAt? (tableLocation [] kind ++ [_]) = none
    rw [entryAt?, at?_partitionTree]
    cases contents kind <;> rfl

theorem isServed_partitionTree (hFiles : AreFiles contents) :
    IsServed inspecting (partitionTree contents) [] := by
  refine ⟨(isUntouched_partitionTree hFiles).isSound, fun links other hOther => ?_⟩
  exact (hOther.unique (isDepot_partitionTree contents).reaches).2

/-- A table with the same contents is the same. -/
theorem agreeBelow_partitionTree (hSame : others kind = contents kind) :
    AgreeBelow (partitionTree contents) (tableLocation [] kind) (partitionTree others)
      (tableLocation [] kind) := by
  intro below
  rw [entryAt?, entryAt?, at?_partitionTree, at?_partitionTree, hSame]

theorem hasRoom_inspecting : HasRoom inspecting := hasRoom_here (show 0 + 74 ≤ maxPath by decide)

end Partition

def readableEntries : List (Name × Node) := [(Name.ofString "a.parquet", .file sampleContent)]

/-- A file that is too short for a footer. -/
def shortContent : List UInt8 := [80, 65, 82, 49]

def mixedEntries : List (Name × Node) :=
  (Name.ofString "b.parquet", .file shortContent) :: readableEntries

/-- Tables of which the blocks are there, and the tags may be. -/
def withBlocks (blocks : List (Name × Node)) (tags : Option (List (Name × Node))) :
    Kind → Option (List (Name × Node))
  | .blocks => some blocks
  | .transactions => none
  | .tags => tags

/-- The other tables are the same whatever the blocks are. -/
theorem withBlocks_of_ne (blocks others : List (Name × Node)) (tags : Option (List (Name × Node)))
    (hKind : kind ≠ .blocks) : withBlocks others tags kind = withBlocks blocks tags kind := by
  cases kind with
  | blocks => exact absurd rfl hKind
  | transactions | tags => rfl

/-- Which tables are there does not depend on what their partitions hold. -/
theorem isSome_withBlocks (blocks others : List (Name × Node))
    (tags : Option (List (Name × Node))) (kind : Kind) :
    (withBlocks others tags kind).isSome = (withBlocks blocks tags kind).isSome := by
  cases kind <;> rfl

theorem child?_readableEntries {fileName : String} {content : List UInt8} :
    (Node.dir readableEntries).child? (Name.ofString fileName) = some (.file content) ↔
      fileName = "a.parquet" ∧ content = sampleContent := by
  constructor
  · intro h
    obtain ⟨hName, hContent⟩ := Prod.mk.inj (List.mem_singleton.mp (Node.mem_of_child? h))
    exact ⟨Name.ofString_injective hName, (Node.file.inj hContent)⟩
  · rintro ⟨rfl, rfl⟩
    rfl

theorem child?_mixedEntries {fileName : String} {content : List UInt8} :
    (Node.dir mixedEntries).child? (Name.ofString fileName) = some (.file content) ↔
      fileName = "a.parquet" ∧ content = sampleContent ∨
        fileName = "b.parquet" ∧ content = shortContent := by
  constructor
  · intro h
    rcases List.mem_cons.mp (Node.mem_of_child? h) with hShort | hReadable
    · obtain ⟨hName, hContent⟩ := Prod.mk.inj hShort
      exact .inr ⟨Name.ofString_injective hName, Node.file.inj hContent⟩
    · obtain ⟨hName, hContent⟩ := Prod.mk.inj (List.mem_singleton.mp hReadable)
      exact .inl ⟨Name.ofString_injective hName, Node.file.inj hContent⟩
  · rintro (⟨rfl, rfl⟩ | ⟨rfl, rfl⟩) <;> rfl

/-- Both samples hold nothing but files with short names. -/
theorem areFiles_of_forall {contents : Kind → Option (List (Name × Node))}
    (h : ∀ kind entries, contents kind = some entries →
      entries = readableEntries ∨ entries = mixedEntries) : AreFiles contents := by
  intro kind entries hContents entry hEntry
  have hMixed : entry ∈ mixedEntries := by
    rcases h kind entries hContents with rfl | rfl
    · exact List.mem_cons_of_mem _ hEntry
    · exact hEntry
  simp only [mixedEntries, readableEntries, List.mem_cons, List.not_mem_nil, or_false] at hMixed
  rcases hMixed with rfl | rfl
  · exact ⟨Name.fits_ofString (by decide), _, rfl⟩
  · exact ⟨Name.fits_ofString (by decide), _, rfl⟩

theorem areFiles_withBlocks {blocks : List (Name × Node)} {tags : Option (List (Name × Node))}
    (hBlocks : blocks = readableEntries ∨ blocks = mixedEntries)
    (hTags : tags = none ∨ tags = some readableEntries) : AreFiles (withBlocks blocks tags) := by
  apply areFiles_of_forall
  intro kind entries hContents
  cases kind with
  | blocks =>
      obtain rfl := Option.some_inj.mp hContents
      exact hBlocks
  | transactions => cases hContents
  | tags =>
      rcases hTags with rfl | rfl
      · cases hContents
      · exact .inl (Option.some_inj.mp hContents).symm

/-- Statistics can be had of the one file and not of the other. -/
theorem ofContent?_isSome (schema : Table.Schema) :
    (FileStats.ofContent? schema sampleContent).isSome ∧
      FileStats.ofContent? schema shortContent = none := by
  rw [FileStats.ofContent?, ofContent?_sample]
  exact ⟨rfl, rfl⟩

theorem isCandidate_a : Scan.IsCandidate "a.parquet" := ⟨by decide, by decide⟩

theorem isCandidate_b : Scan.IsCandidate "b.parquet" := ⟨by decide, by decide⟩

/-- The file with a footer can be read wherever it stands. -/
theorem isReadable_sample {contents : Kind → Option (List (Name × Node))}
    {entries : List (Name × Node)} (hFiles : AreFiles contents)
    (hContents : contents kind = some entries)
    (hEntries : entries = readableEntries ∨ entries = mixedEntries) :
    IsReadable inspecting (partitionTree contents) kind (partitionName, "a.parquet")
      sampleContent := by
  refine (isReadable_partitionTree_iff hFiles).mpr
    ⟨⟨rfl, isCandidate_a, entries, hContents, ?_⟩, (ofContent?_isSome kind.schema).1⟩
  rcases hEntries with rfl | rfl
  · exact child?_readableEntries.mpr ⟨rfl, rfl⟩
  · exact child?_mixedEntries.mpr (.inl ⟨rfl, rfl⟩)

/-- So there are documents to write about its table. -/
theorem exists_documents_sample {contents : Kind → Option (List (Name × Node))}
    {entries : List (Name × Node)} (hFiles : AreFiles contents)
    (hContents : contents kind = some entries)
    (hEntries : entries = readableEntries ∨ entries = mixedEntries) (stamp : Table.Stamp) :
    ∃ documents, documentsOf? inspecting (partitionTree contents) kind stamp = some documents :=
  exists_documents_of_isReadable rfl (isClear_partitionTree hFiles kind)
    (isReadable_sample hFiles hContents hEntries) stamp

end ExportKit.Warehouse
