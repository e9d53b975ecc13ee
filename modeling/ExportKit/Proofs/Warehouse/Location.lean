import ExportKit.Proofs.FileSystem.LinkFree
import ExportKit.Proofs.Table.FileNames
import ExportKit.Proofs.Warehouse.Scan
import ExportKit.Warehouse.Generation

/-!
The absolute path of a warehouse, and the locations of tables that are made of it.
-/
namespace ExportKit.Warehouse

open FileSystem (maxPath)
open ExportKit.Path (slash)
open Table (DataFile Kind Metadata Stamp)

variable {config : Configuration} {fs : FileSystem} {here location : Location} {node : Node}

/-- The absolute path of a warehouse, given a working directory, spells the location where the path
of the warehouse leads by names alone. With it as the warehouse, nothing is left to change. -/
structure Configuration.IsSettled (config : Configuration) (workingDir : Path) : Prop where
  spells : (config.absoluteWarehouse (some workingDir)).Spells
    (config.warehouse.lead (workingDir.lead []))
  stable : ∀ otherDir : Option Path,
    ({ config with warehouse := config.absoluteWarehouse (some workingDir) } :
      Configuration).absoluteWarehouse otherDir = config.absoluteWarehouse (some workingDir)

/-- The absolute path of a warehouse leads to the directory that the warehouse is. Only where the
warehouse is relative can it be too long for that. -/
structure Configuration.LeadsAlike (config : Configuration) (fs : FileSystem) (location : Location)
    (node : Node) : Prop where
  spells : (config.absoluteWarehouse fs.workingPath?).Spells location
  finds : config.warehouse.isAbsolute ∨
      (config.absoluteWarehouse fs.workingPath?).bytes.length ≤ maxPath →
    fs.Finds (config.absoluteWarehouse fs.workingPath?) location node
  refused : maxPath < (config.absoluteWarehouse fs.workingPath?).bytes.length →
    fs.resolve .follow (config.absoluteWarehouse fs.workingPath?) = .error .nameTooLong

/-- With a working directory, paths become paths from the root that spell where they lead. -/
theorem spells_of_startsAt {path : Path} (hNe : path.bytes ≠ [])
    (hStart : path.isAbsolute ∨ fs.StartsAt here) :
    (Path.absolute fs.workingPath? path).normalize.Spells (path.lead here) := by
  by_cases hAbsolute : path.isAbsolute
  · exact Path.spells_of_isAbsolute hAbsolute fs.workingPath? here
  · obtain ⟨dir, hDir, hSpells⟩ := (hStart.resolve_left hAbsolute).exists_workingPath
    rw [hDir, ← hSpells.lead_eq []]
    exact Path.spells_absolute hSpells.isAbsolute hNe

/-- Where there are no links, the absolute path of a warehouse spells the location of the warehouse,
in names that paths can hold. -/
theorem spells_of_finds (hFree : fs.IsLinkFree)
    (hStart : config.warehouse.isAbsolute ∨ fs.StartsAt here)
    (hFinds : fs.Finds config.warehouse location node) :
    (config.absoluteWarehouse fs.workingPath?).Spells location ∧
      0 ∉ (config.absoluteWarehouse fs.workingPath?).bytes := by
  have hSpells : (config.absoluteWarehouse fs.workingPath?).Spells (config.warehouse.lead here) :=
    spells_of_startsAt hFinds.accepts.ne_nil hStart
  rw [← hFinds.eq_lead hFree hStart] at hSpells
  exact ⟨hSpells, FileSystem.not_mem_zero_of_segments hSpells.segments_eq
    (hFinds.isValid hFree hStart)⟩

/-- Without links, the absolute path of a warehouse leads to the same directory. -/
theorem leadsAlike_of_finds (hFree : fs.IsLinkFree)
    (hStart : config.warehouse.isAbsolute ∨ fs.StartsAt here)
    (hFinds : fs.Finds config.warehouse location node) (hIsDir : node.isDir) :
    config.LeadsAlike fs location node := by
  obtain ⟨hSpells, hZero⟩ := spells_of_finds hFree hStart hFinds
  refine ⟨hSpells, fun hShort => ?_, FileSystem.resolve_of_long hZero⟩
  have hLength : (config.absoluteWarehouse fs.workingPath?).bytes.length ≤ maxPath := by
    rcases hShort with hAbsolute | hLength
    · rw [hFinds.eq_lead hFree hStart] at hSpells
      exact (hSpells.length_le hAbsolute).trans hFinds.accepts.length_le
    · exact hLength
  obtain ⟨links, -, hAt⟩ := hFinds.leads hStart
  exact FileSystem.finds_of_spells hFree hSpells (hFinds.isValid hFree hStart) hAt hIsDir hLength

/-- Lexical normalization agrees with the resolution of paths where there are no links. -/
theorem settles_absoluteWarehouse (hNe : config.warehouse.bytes ≠ []) :
    (∀ workingDir : Path, workingDir.isAbsolute → config.IsSettled workingDir) ∧
      ∀ (fs : FileSystem) (here location : Location) (node : Node), fs.IsLinkFree →
        (config.warehouse.isAbsolute ∨ fs.StartsAt here) →
        fs.Finds config.warehouse location node → node.isDir →
        config.LeadsAlike fs location node := by
  refine ⟨fun dir hDir => ?_, fun fs here location node => leadsAlike_of_finds⟩
  have hSpells : (config.absoluteWarehouse (some dir)).Spells
      (config.warehouse.lead (dir.lead [])) :=
    Path.spells_absolute hDir hNe
  refine ⟨hSpells, fun otherDir => ?_⟩
  rw [Configuration.absoluteWarehouse, hSpells.absolute_eq, hSpells.normalize_eq]

/-! Directories of one name, each within the one before. -/

/-- The entries of the outermost of `n` directories and of those within it. -/
def nested (name : Name) : Nat → List (Name × Node)
  | 0 => []
  | n + 1 => [(name, .dir (nested name n))]

def nestedTree (name : Name) (n : Nat) : FileSystem where
  rootEntries := nested name n
  workingDir := .existing []
  output := []

/-- Each of the nested directories holds the next one under the same name. -/
theorem child?_nested (name first : Name) (n : Nat) :
    (Node.dir (nested name (n + 1))).child? first =
      if first = name then some (.dir (nested name n)) else none := by
  rw [Node.child?, Node.entries, nested, List.lookup_cons, List.lookup_nil]
  split <;> simp_all

theorem at?_nested (name : Name) (n : Nat) :
    (Node.dir (nested name n)).at? (List.replicate n name) = some (.dir []) := by
  induction n with
  | zero => rfl
  | succ n ih =>
      rw [List.replicate_succ, Node.at?, child?_nested, if_pos rfl]
      exact ih

theorem isDir_of_nested {name : Name} {n : Nat} {location : Location} {node : Node}
    (h : (Node.dir (nested name n)).at? location = some node) : node.isDir := by
  induction n generalizing location with
  | zero =>
      cases location with
      | nil =>
          cases h
          rfl
      | cons first rest => cases h
  | succ n ih =>
      cases location with
      | nil =>
          cases h
          rfl
      | cons first rest =>
          rw [Node.at?, child?_nested, Option.bind_eq_some_iff] at h
          obtain ⟨child, hChild, hRest⟩ := h
          rw [Option.ite_none_right_eq_some] at hChild
          obtain ⟨-, hEq⟩ := hChild
          cases hEq
          exact ih hRest

theorem isLinkFree_nested (name : Name) (n : Nat) : (nestedTree name n).IsLinkFree := by
  intro location target h
  rw [FileSystem.entryAt?, Option.map_eq_some_iff] at h
  obtain ⟨node, hNode, hEntry⟩ := h
  have hDir : node.isDir := isDir_of_nested hNode
  rw [← Node.entry_eq_dir_iff, hEntry] at hDir
  cases hDir

/-- The standard configuration with the innermost directory as the warehouse, by a path from the
outermost one. -/
def nestedConfiguration (name : Name) (n : Nat) : Configuration :=
  { Configuration.standard with warehouse := ⟨[slash].intercalate (List.replicate n name)⟩ }

/-- The innermost directory is found by its path, unless that is too long. -/
theorem finds_nested {name : Name} (hValid : name.isValid) {n : Nat} (hPos : n ≠ 0)
    (hSize : Path.size (List.replicate n name) ≤ maxPath + 1) :
    (nestedTree name n).Finds (nestedConfiguration name n).warehouse (List.replicate n name)
      (.dir []) := by
  refine FileSystem.finds_intercalate (isLinkFree_nested name n) ⟨rfl, by simp⟩
    (by simpa using hPos) ?_ (at?_nested name n) rfl hSize
  intro other hOther
  rwa [List.eq_of_mem_replicate hOther]

/-- The standard configuration with the directory `a` as the warehouse, spelled with steps that lead
nowhere. -/
def detour : Configuration :=
  { Configuration.standard with warehouse := .ofString "a/..//.././a/" }

theorem finds_detour : (nestedTree [97] 1).Finds detour.warehouse [[97]] (.dir []) := by
  have hAccepts : FileSystem.Accepts detour.warehouse := ⟨by decide, by decide, by decide⟩
  have hEntry : (nestedTree [97] 1).entryAt? [[97]] = some .dir := rfl
  have hLast : FileSystem.Leads (nestedTree [97] 1) FileSystem.maxLinks [] [[97]]
      FileSystem.maxLinks [[97]] :=
    .entry (by decide) (by decide) (by decide) hEntry (by simp) (.nil _ _)
  have hLeads : FileSystem.Leads (nestedTree [97] 1) FileSystem.maxLinks []
      [[97], [Path.dot, Path.dot], [Path.dot, Path.dot], [Path.dot], [97]]
      FileSystem.maxLinks [[97]] :=
    .entry (by decide) (by decide) (by decide) hEntry (by simp)
      (.up hEntry (.up rfl (.here rfl hLast)))
  exact FileSystem.finds_of_leads hAccepts rfl hLeads rfl rfl

/-- The detour is settled, and its absolute path leads to the same directory. -/
theorem settles_detour :
    detour.warehouse.bytes ≠ [] ∧ detour.IsSettled (.ofString "/srv/../home") ∧
      (nestedTree [97] 1).IsLinkFree ∧ (nestedTree [97] 1).StartsAt [] ∧
      (nestedTree [97] 1).Finds detour.warehouse [[97]] (.dir []) ∧
      detour.LeadsAlike (nestedTree [97] 1) [[97]] (.dir []) := by
  have hNe : detour.warehouse.bytes ≠ [] := by decide
  have hFree := isLinkFree_nested [97] 1
  have hStarts : (nestedTree [97] 1).StartsAt [] := ⟨rfl, by simp⟩
  have hSettles := settles_absoluteWarehouse hNe
  exact ⟨hNe, hSettles.1 _ rfl, hFree, hStarts, finds_detour,
    hSettles.2 _ [] _ _ hFree (.inr hStarts) finds_detour rfl⟩

/-- A name that makes the longest of all paths when it stands there 32 times. -/
def longName : Name := List.replicate 127 97

theorem size_longNames : Path.size (List.replicate 32 longName) = maxPath + 1 := by
  decide +kernel

/-- A path that is as long as paths may be leads to a directory, but the one from the root that
spells its location is too long. -/
theorem not_leads_of_long_names :
    (nestedTree longName 32).IsLinkFree ∧ (nestedTree longName 32).StartsAt [] ∧
      (nestedTree longName 32).Finds (nestedConfiguration longName 32).warehouse
        (List.replicate 32 longName) (.dir []) ∧
      ¬(nestedTree longName 32).Finds
        ((nestedConfiguration longName 32).absoluteWarehouse
          (nestedTree longName 32).workingPath?)
        (List.replicate 32 longName) (.dir []) := by
  have hFree := isLinkFree_nested longName 32
  have hStarts : (nestedTree longName 32).StartsAt [] := ⟨rfl, by simp⟩
  have hFinds := finds_nested (show longName.isValid by decide +kernel) (n := 32) (by decide)
    (Nat.le_of_eq size_longNames)
  refine ⟨hFree, hStarts, hFinds, ?_⟩
  rintro ⟨slash, hResolve⟩
  obtain ⟨hSpells, hZero⟩ := spells_of_finds hFree (.inr hStarts) hFinds
  have hLength := hSpells.length_eq
  rw [size_longNames] at hLength
  rw [FileSystem.resolve_of_long hZero (Nat.lt_of_lt_of_eq (by decide) hLength.symm)] at hResolve
  cases hResolve

/-! Locations of tables. -/

/-- A text is the location of what a path from the root spells. -/
structure IsLocationOf (text : String) (path : Path) : Prop where
  spells : ∃ location, path.Spells location
  text_eq : text = "file://" ++ path.display

/-- Where there is a working directory, or none is needed, all paths become paths from the root that
spell where they lead from the same start. -/
theorem exists_start (fs : FileSystem) : ∃ start : Location, ∀ path : Path, path.bytes ≠ [] →
    (path.isAbsolute ∨ fs.workingPath? ≠ none) →
    (Path.absolute fs.workingPath? path).normalize.Spells (path.lead start) := by
  cases hDir : fs.workingPath? with
  | none => exact ⟨[], fun path _ hStart =>
      Path.spells_of_isAbsolute (hStart.resolve_right (· rfl)) none []⟩
  | some dir =>
      have hAbsolute : dir.isAbsolute := by
        rw [FileSystem.workingPath?] at hDir
        split at hDir <;> cases hDir
        exact Path.isAbsolute_ofComponents _
      exact ⟨dir.lead [], fun path hNe _ => Path.spells_absolute hAbsolute hNe⟩

/-- Two slashes follow each other where the warehouse is the root. -/
theorem tableLocation_eq_iff {warehouse table : Path} {kind : Kind}
    (hWarehouse : warehouse.Spells location)
    (hTable : table.Spells (location ++ [Name.ofString kind.name])) :
    Metadata.tableLocation warehouse kind = "file://" ++ table.display ↔ warehouse ≠ ⟨[slash]⟩ := by
  rw [hWarehouse.display_concat hTable, Metadata.tableLocation]
  by_cases hRoot : location = []
  · obtain rfl := hWarehouse.eq_nil_iff.mp hRoot
    have hSlash : (⟨[slash]⟩ : Path).display = "/" := Path.display_ofString "/"
    rw [if_pos hRoot, hSlash]
    refine iff_of_false (fun hEq => ?_) (· rfl)
    have hLength := congrArg String.length hEq
    have hOne : "/".length = 1 := rfl
    simp only [String.length_append] at hLength
    omega
  · rw [if_neg hRoot]
    refine iff_of_true ?_ (mt hWarehouse.eq_nil_iff.mpr hRoot)
    simp [String.append_assoc]

/-- The location in the metadata is that of the directory of the table, unless the warehouse is the
root or there is no path to it from there. -/
theorem isLocationOf_iff {config : Configuration} {fs : FileSystem}
    (hDir : fs.isDir config.warehouse) (kind : Kind) (files : List DataFile) (stamp : Stamp) :
    IsLocationOf (documentsFor config fs kind files stamp).metadata.location
        (Path.absolute fs.workingPath? (config.tableDir kind)).normalize ↔
      (config.warehouse.isAbsolute ∨ fs.workingPath? ≠ none) ∧
        config.absoluteWarehouse fs.workingPath? ≠ ⟨[slash]⟩ := by
  obtain ⟨node, hStatus, -⟩ := Scan.exists_status_of_isDir hDir
  obtain ⟨spot, hResolve, -⟩ := FileSystem.exists_resolve_of_status hStatus
  have hNe := (FileSystem.accepts_of_resolve hResolve).ne_nil
  have hName := (Table.fits_kind_name kind).proper
  obtain ⟨start, hStart⟩ := exists_start fs
  by_cases hBegins : config.warehouse.isAbsolute ∨ fs.workingPath? ≠ none
  · have hTable := hStart (config.tableDir kind) (Path.bytes_join_ne_nil hName config.warehouse)
      (by rwa [← Path.isAbsolute_join hName] at hBegins)
    rw [Configuration.tableDir, ← Path.join_ofString, Path.lead_join hName] at hTable
    have hIff := tableLocation_eq_iff (hStart config.warehouse hNe hBegins) hTable
    rw [and_iff_right hBegins, Configuration.absoluteWarehouse, ← hIff]
    exact ⟨fun h => h.text_eq, fun h => ⟨⟨_, hTable⟩, h⟩⟩
  · refine iff_of_false (fun h => ?_) (fun h => hBegins h.1)
    obtain ⟨hRelative, hNone⟩ := not_or.mp hBegins
    obtain ⟨location, hSpells⟩ := h.spells
    have hTable : (config.tableDir kind).isAbsolute = config.warehouse.isAbsolute :=
      Path.isAbsolute_join hName config.warehouse
    have hAbsolute := hSpells.isAbsolute
    rw [not_not.mp hNone, Path.absolute_none (by rwa [hTable]), Path.isAbsolute_normalize,
      hTable] at hAbsolute
    exact hRelative hAbsolute

/-- The location of the table is its normalized absolute path. -/
theorem isLocationOf_detour :
    (nestedTree [97] 1).isDir detour.warehouse ∧
      detour.absoluteWarehouse (nestedTree [97] 1).workingPath? ≠ ⟨[slash]⟩ ∧
      IsLocationOf
        (documentsFor detour (nestedTree [97] 1) .blocks [] ⟨0, default, default⟩).metadata.location
        (Path.absolute (nestedTree [97] 1).workingPath? (detour.tableDir .blocks)).normalize := by
  have hDir : (nestedTree [97] 1).isDir detour.warehouse := finds_detour.isDir rfl
  have hBegins : (nestedTree [97] 1).workingPath? ≠ none := Option.some_ne_none _
  have hRoot : detour.absoluteWarehouse (nestedTree [97] 1).workingPath? ≠ ⟨[slash]⟩ := by decide
  exact ⟨hDir, hRoot, (isLocationOf_iff hDir .blocks [] _).mpr ⟨.inr hBegins, hRoot⟩⟩

/-- The standard configuration with the root as the warehouse. -/
def rootConfiguration : Configuration :=
  { Configuration.standard with warehouse := .ofString "/" }

/-- With the root as the warehouse, the location of a table has a segment without a name. -/
theorem not_isLocationOf_root :
    (nestedTree [97] 0).isDir rootConfiguration.warehouse ∧
      (documentsFor rootConfiguration (nestedTree [97] 0) .blocks []
        ⟨0, default, default⟩).metadata.location = "file:////blocks" ∧
      (Path.absolute (nestedTree [97] 0).workingPath?
        (rootConfiguration.tableDir .blocks)).normalize = .ofString "/blocks" ∧
      ¬IsLocationOf "file:////blocks" (.ofString "/blocks") := by
  have hFinds : (nestedTree [97] 0).Finds rootConfiguration.warehouse [] (.dir []) :=
    FileSystem.finds_of_leads ⟨by decide, by decide, by decide⟩ rfl (.nil _ []) rfl rfl
  have hAbsolute : rootConfiguration.absoluteWarehouse (nestedTree [97] 0).workingPath? =
      .ofString "/" := by decide
  refine ⟨hFinds.isDir rfl, ?_, by decide, fun h => ?_⟩
  · change Metadata.tableLocation (rootConfiguration.absoluteWarehouse _) .blocks = _
    rw [hAbsolute, Metadata.tableLocation, Path.display_ofString]
    decide
  · have hText := h.text_eq
    rw [Path.display_ofString] at hText
    exact absurd hText (by decide)

end ExportKit.Warehouse
