import ExportKit.Proofs.Warehouse.History
import ExportKit.Proofs.Warehouse.Interruption

/-!
What a run leaves alone: everything but five entries in the directory of the documents of each
table, and that directory where there was none. Main statement: `unchanged_of_generate`.
-/
namespace ExportKit.Warehouse

open FileSystem
open Table (Documents Kind Stamp)
open Table.Documents (directoryName pointerFileName versionFileName)
open WriteStep (runAll)

variable {fs middle after : FileSystem} {config : Configuration} {warehouse location : Location}
  {stamps : Kind → Stamp} {kinds : List Kind} {kind : Kind} {path : Path} {links : Nat}
  {name : Name} {step : WriteStep} {steps : List WriteStep}

/-- A link as runs make it, from the name of the pointer to the metadata beside it. -/
def IsPointer (location : Location) (target : Path) : Prop :=
  location.getLast? = some (Name.ofString pointerFileName) ∧ target = .ofString versionFileName

/-- A warehouse without other links than pointers. -/
def OnlyPointers (fs : FileSystem) (warehouse : Location) : Prop :=
  ∀ location target, warehouse <+: location → fs.entryAt? location = some (.link target) →
    IsPointer location target

/-- Under any other name than that of the pointer there is no link. -/
theorem OnlyPointers.no_link (h : OnlyPointers fs warehouse) (hPrefix : warehouse <+: location)
    (hName : name ≠ Name.ofString pointerFileName) (target : Path) :
    fs.entryAt? (location ++ [name]) ≠ some (.link target) := by
  intro hLink
  obtain ⟨hLast, -⟩ := h _ target (hPrefix.trans (List.prefix_append location [name])) hLink
  rw [List.getLast?_concat] at hLast
  exact hName (Option.some_inj.mp hLast)

theorem prefix_documentsLocation (warehouse : Location) (kind : Kind) :
    warehouse <+: documentsLocation warehouse kind :=
  (List.prefix_append warehouse _).trans (List.prefix_append _ _)

theorem OnlyPointers.documents (h : OnlyPointers fs warehouse) (kind : Kind) :
    OnlyPointers fs (documentsLocation warehouse kind) :=
  fun location target hPrefix =>
    h location target ((prefix_documentsLocation warehouse kind).trans hPrefix)

/-- The directory of the documents does not have the name of a pointer. -/
theorem OnlyPointers.no_link_documents (h : OnlyPointers fs (documentsLocation warehouse kind))
    (target : Path) : fs.entryAt? (documentsLocation warehouse kind) ≠ some (.link target) := by
  intro hLink
  obtain ⟨hLast, -⟩ := h _ target (List.prefix_refl _) hLink
  rw [documentsLocation, List.getLast?_concat, Option.some_inj] at hLast
  exact absurd (Name.ofString_injective hLast) (by decide)

/-- Nothing differs but documents of some tables, and the directories that hold them where there
were none. New links are pointers, and paths to directories lead where they led. -/
structure Frames (warehouse : Location) (stamps : Kind → Stamp) (kinds : List Kind)
    (fs after : FileSystem) : Prop where
  entry : ∀ location,
    (∀ kind ∈ kinds, ∀ name ∈ (stamps kind).fileNames,
      location ≠ documentsLocation warehouse kind ++ [name]) →
    after.entryAt? location = fs.entryAt? location ∨
      (∃ kind ∈ kinds, location = documentsLocation warehouse kind) ∧
        fs.entryAt? location = none ∧ after.entryAt? location = some .dir
  link : ∀ location target, after.entryAt? location = some (.link target) →
    fs.entryAt? location = some (.link target) ∨ IsPointer location target
  keepsPaths : KeepsPaths fs after

namespace Frames

theorem refl (fs : FileSystem) : Frames warehouse stamps kinds fs fs :=
  ⟨fun _ _ => .inl rfl, fun _ _ hLink => .inl hLink, .refl fs⟩

/-- What two runs in turn frame is framed by both. -/
theorem trans (first : Frames warehouse stamps kinds fs middle)
    (second : Frames warehouse stamps kinds middle after) :
    Frames warehouse stamps kinds fs after := by
  refine ⟨fun location hLocation => ?_, fun location target hLink => ?_,
    first.keepsPaths.trans second.keepsPaths⟩
  · rcases first.entry location hLocation with hFirst | ⟨hDir, hNone, hMade⟩
    · rw [← hFirst]
      exact second.entry location hLocation
    · right
      rcases second.entry location hLocation with hSecond | ⟨-, hMissing, -⟩
      · exact ⟨hDir, hNone, hSecond.trans hMade⟩
      · cases hMade.symm.trans hMissing
  · rcases second.link location target hLink with hLink | hPointer
    · exact first.link location target hLink
    · exact .inr hPointer

/-- To frame some tables is to frame more of them. -/
theorem mono {others : List Kind} (h : Frames warehouse stamps kinds fs after)
    (hKinds : kinds ⊆ others) : Frames warehouse stamps others fs after := by
  refine ⟨fun location hLocation => ?_, h.link, h.keepsPaths⟩
  apply (h.entry location fun kind hKind => hLocation kind (hKinds hKind)).imp_right
  rintro ⟨⟨kind, hKind, hDir⟩, hMade⟩
  exact ⟨⟨kind, hKinds hKind, hDir⟩, hMade⟩

/-- A run makes no links but pointers. -/
theorem onlyPointers {dir : Location} (h : Frames warehouse stamps kinds fs after)
    (hPointers : OnlyPointers fs dir) : OnlyPointers after dir := by
  intro location target hPrefix hLink
  rcases h.link location target hLink with hLink | hPointer
  · exact hPointers location target hPrefix hLink
  · exact hPointer

end Frames

/-! Steps in a directory of documents. -/

/-- The directory of the documents of a table, with the path by which a run comes to it. -/
structure IsHost (fs : FileSystem) (warehouse : Location) (kind : Kind) (path : Path)
    (links : Nat) : Prop where
  reaches : Reaches fs path links (documentsLocation warehouse kind)
  isDir : fs.entryAt? (documentsLocation warehouse kind) = some .dir
  pointers : OnlyPointers fs (documentsLocation warehouse kind)

/-- Where only documents differ, the directory of a table is reached as before. -/
theorem IsHost.of_frames (h : IsHost fs warehouse kind path links)
    (hFrames : Frames warehouse stamps kinds fs after) :
    IsHost after warehouse kind path links := by
  obtain ⟨hReaches, hIsDir⟩ := hFrames.keepsPaths path links _ h.reaches h.isDir
  exact ⟨hReaches, hIsDir, hFrames.onlyPointers h.pointers⟩

theorem IsHost.no_link (h : IsHost fs warehouse kind path links)
    (hName : name ≠ Name.ofString pointerFileName) (target : Path) :
    fs.entryAt? (documentsLocation warehouse kind ++ [name]) ≠ some (.link target) :=
  h.pointers.no_link (List.prefix_refl _) hName target

/-- The pointer leads to no directory where the metadata is none. -/
theorem IsHost.isDeadEnd (h : IsHost fs warehouse kind path links)
    (hVersion : fs.entryAt? (documentsLocation warehouse kind ++
      [Name.ofString versionFileName]) ≠ some .dir) :
    IsDeadEnd fs (documentsLocation warehouse kind) (.ofString versionFileName) := by
  apply isDeadEnd_of_versionFile
  intro found hFound
  constructor
  · rintro rfl
    exact hVersion hFound
  · rintro target rfl
    exact h.no_link Table.versionFileName_ne_pointerFileName target hFound

/-- A change of one of the five entries. The pointer may only be changed where it leads to no
directory, since otherwise paths might lead through it. -/
theorem IsHost.frames_of_alters (h : IsHost fs warehouse kind path links)
    (hName : name ∈ (stamps kind).fileNames)
    (hAlters : Alters (documentsLocation warehouse kind ++ [name]) fs after)
    (hVersion : name = Name.ofString pointerFileName →
      fs.entryAt? (documentsLocation warehouse kind ++ [Name.ofString versionFileName]) ≠ some .dir)
    (hLink : ∀ target, after.entryAt? (documentsLocation warehouse kind ++ [name]) =
      some (.link target) → IsPointer (documentsLocation warehouse kind ++ [name]) target) :
    Frames warehouse stamps [kind] fs after := by
  constructor
  case entry =>
    intro location hLocation
    exact .inl (hAlters.entry location (hLocation kind (List.mem_singleton_self kind) name hName))
  case link =>
    intro location target hFound
    by_cases hEq : location = documentsLocation warehouse kind ++ [name]
    · subst hEq
      exact .inr (hLink target hFound)
    · exact .inl ((hAlters.entry location hEq).symm.trans hFound)
  case keepsPaths =>
    apply KeepsPaths.of_changesOnly hAlters.changesOnly hAlters.before
    intro dir last target hLocation hFound
    obtain ⟨rfl, -⟩ := List.append_inj' hLocation rfl
    obtain ⟨hLast, rfl⟩ := h.pointers _ target (List.prefix_append _ [name]) hFound
    rw [List.getLast?_concat] at hLast
    exact h.isDeadEnd (hVersion (Option.some_inj.mp hLast))

/-- The steps that are about entries of the directory of the documents. -/
inductive StaysIn (path : Path) (names : List Name) : WriteStep → Prop where
  | file {fileName text : String} (mem : Name.ofString fileName ∈ names)
      (fits : (Name.ofString fileName).Fits maxName)
      (ne : Name.ofString fileName ≠ Name.ofString pointerFileName) :
      StaysIn path names (.file (path.child fileName) text)
  | clearing : StaysIn path names (.clearing (path.child pointerFileName))
  | pointer : StaysIn path names (.pointer (path.child pointerFileName))

/-- Writing a document alters the entry of its name, and leaves no link there. -/
theorem IsHost.alters_of_file {text : String} (h : IsHost fs warehouse kind path links)
    (hFits : name.Fits maxName) (hName : name ≠ Name.ofString pointerFileName)
    (hRun : WriteStep.run (.file (path.join ⟨name⟩) text) fs = (.ok (), after)) :
    Alters (documentsLocation warehouse kind ++ [name]) fs after ∧
      ∀ target, after.entryAt? (documentsLocation warehouse kind ++ [name]) ≠
        some (.link target) := by
  rw [WriteStep.run, Activity.putFile] at hRun
  obtain ⟨spot, hResolve, hAlters, hEntry⟩ := putFile_eq_ok (Activity.change_eq_ok hRun)
  have hSpot : fs.resolve .create (path.join ⟨name⟩) = _ :=
    h.reaches.resolve_entry h.isDir hFits.proper hFits.length_le (accepts_of_resolve hResolve)
      (.inr (.inr (h.no_link hName)))
  obtain rfl := Except.ok.inj (hResolve.symm.trans hSpot)
  refine ⟨hAlters, fun target hLink => ?_⟩
  rcases hEntry with hFile | ⟨device, -, hDevice⟩
  · cases hFile.symm.trans hLink
  · cases hDevice.symm.trans hLink

/-- The spot of the pointer, as it is removed and made. -/
theorem IsHost.eq_of_resolve_pointer {spot : Spot} (h : IsHost fs warehouse kind path links)
    (hResolve : fs.resolve .name (path.child pointerFileName) = .ok spot) :
    spot.location = documentsLocation warehouse kind ++ [Name.ofString pointerFileName] := by
  have hFits := Table.fits_pointerFileName.mono (show 13 ≤ maxName by decide)
  have hSpot : fs.resolve .name (path.child pointerFileName) = _ :=
    h.reaches.resolve_entry h.isDir hFits.proper hFits.length_le (accepts_of_resolve hResolve)
      (.inl rfl)
  exact congrArg Spot.location (Except.ok.inj (hResolve.symm.trans hSpot))

/-- A step within the directory of the documents. Where the metadata is no directory before, it is
none after, so that the pointer may be changed later. -/
theorem IsHost.frames_of_step {result : Except Failure Unit}
    (h : IsHost fs warehouse kind path links)
    (hVersion : fs.entryAt? (documentsLocation warehouse kind ++
      [Name.ofString versionFileName]) ≠ some .dir)
    (hStep : StaysIn path (stamps kind).fileNames step) (hRun : step.run fs = (result, after)) :
    Frames warehouse stamps [kind] fs after ∧
      after.entryAt? (documentsLocation warehouse kind ++
        [Name.ofString versionFileName]) ≠ some .dir := by
  cases result with
  | error failure =>
      have hNotDirectory : ∀ path, step ≠ .directory path := by
        cases hStep <;> simp
      obtain ⟨rfl, -⟩ := eq_of_run_error hNotDirectory hRun
      exact ⟨.refl _, hVersion⟩
  | ok value =>
      cases hStep with
      | file hName hFits hNe =>
          obtain ⟨hAlters, hNoLink⟩ := h.alters_of_file hFits hNe hRun
          exact ⟨h.frames_of_alters hName hAlters (fun _ => hVersion)
            (fun target hLink => absurd hLink (hNoLink target)), hAlters.ne_dir hVersion⟩
      | clearing =>
          rw [WriteStep.run, Activity.get_bind_apply] at hRun
          split at hRun
          next =>
            obtain ⟨spot, hResolve, hAlters, hGone⟩ := removeFile_eq_ok (Activity.change_eq_ok hRun)
            rw [h.eq_of_resolve_pointer hResolve] at hAlters hGone
            refine ⟨h.frames_of_alters (by simp [Stamp.fileNames]) hAlters (fun _ => hVersion)
              fun target hLink => ?_, hAlters.ne_dir hVersion⟩
            cases hGone.symm.trans hLink
          next =>
            cases hRun
            exact ⟨.refl _, hVersion⟩
      | pointer =>
          rw [WriteStep.run] at hRun
          obtain ⟨spot, hResolve, hAlters, hMade⟩ := makeLink_eq_ok (Activity.change_eq_ok hRun)
          rw [h.eq_of_resolve_pointer hResolve] at hAlters hMade
          refine ⟨h.frames_of_alters (by simp [Stamp.fileNames]) hAlters (fun _ => hVersion)
            fun target hLink => ?_, hAlters.ne_dir hVersion⟩
          cases hMade.symm.trans hLink
          exact ⟨List.getLast?_concat, rfl⟩

/-- Steps that stay in the directory of the documents touch nothing else, up to the first that
fails. -/
theorem IsHost.frames_of_runAll {result : Except Failure Unit}
    (h : IsHost fs warehouse kind path links)
    (hVersion : fs.entryAt? (documentsLocation warehouse kind ++
      [Name.ofString versionFileName]) ≠ some .dir)
    (hSteps : ∀ step ∈ steps, StaysIn path (stamps kind).fileNames step)
    (hRun : runAll steps fs = (result, after)) : Frames warehouse stamps [kind] fs after := by
  induction steps generalizing fs with
  | nil =>
      cases hRun
      exact .refl _
  | cons step rest ih =>
      have hFirst := hSteps step List.mem_cons_self
      rcases Activity.bind_eq hRun with ⟨failure, hStep, -⟩ | ⟨value, middle, hStep, hRest⟩
      · exact (h.frames_of_step hVersion hFirst hStep).1
      · obtain ⟨hFrames, hVersion⟩ := h.frames_of_step hVersion hFirst hStep
        exact hFrames.trans (ih (h.of_frames hFrames) hVersion
          (fun other hOther => hSteps other (List.mem_cons_of_mem step hOther)) hRest)

/-- The directory of the documents is created where there is nothing. -/
theorem frames_of_put (hDir : fs.entryAt? (tableLocation warehouse kind) = some .dir)
    (hNone : fs.entryAt? (documentsLocation warehouse kind) = none) :
    Frames warehouse stamps [kind] fs (fs.put (documentsLocation warehouse kind) (.dir [])) := by
  have hMade := entryAt?_put_self hDir (Name.ofString directoryName) (.dir [])
  have hOther (location : Location) (hNe : location ≠ documentsLocation warehouse kind) :=
    entryAt?_put_emptyDir hDir hNone hNe
  constructor
  case entry =>
    intro location _
    by_cases hEq : location = documentsLocation warehouse kind
    · subst hEq
      exact .inr ⟨⟨kind, List.mem_singleton_self kind, rfl⟩, hNone, hMade⟩
    · exact .inl (hOther location hEq)
  case link =>
    intro location target hLink
    by_cases hEq : location = documentsLocation warehouse kind
    · subst hEq
      cases hMade.symm.trans hLink
    · exact .inl ((hOther location hEq).symm.trans hLink)
  case keepsPaths =>
    exact .of_changesOnly (changesOnly_put hDir (Name.ofString directoryName) (.dir []))
      (fun hIsDir => by cases hNone.symm.trans hIsDir)
      (fun _ _ _ _ hLink => by cases hNone.symm.trans hLink)

/-- The directory of the documents is created, or is there, or nothing changes. -/
theorem frames_of_directory {tableDir : Path} {result : Except Failure Unit}
    (hReaches : Reaches fs tableDir links (tableLocation warehouse kind))
    (hDir : fs.entryAt? (tableLocation warehouse kind) = some .dir)
    (hPointers : OnlyPointers fs (documentsLocation warehouse kind))
    (hRun : WriteStep.run (.directory (tableDir.child directoryName)) fs = (result, after)) :
    Frames warehouse stamps [kind] fs after ∧
      (result = .ok () → IsHost after warehouse kind (tableDir.child directoryName) links) := by
  have hFits := Table.fits_directoryName.mono (show 8 ≤ maxName by decide)
  rw [WriteStep.run, Activity.makeDirAll_apply] at hRun
  obtain ⟨hResult, hAfter⟩ := Prod.mk.inj hRun
  rcases makeDirAll_cases hReaches hDir hFits.proper hFits.length_le
    hPointers.no_link_documents with ⟨made, hMake, hFound⟩ | ⟨hNone, hMake⟩
  · obtain rfl : fs = after := (congrArg Prod.fst hMake).symm.trans hAfter
    refine ⟨.refl fs, fun hOk => ?_⟩
    have hMade : made = .ok () :=
      (congrArg Prod.snd hMake).symm.trans (Failure.ofOperation_eq_ok.mp (hResult.trans hOk))
    have hIsDir := hFound hMade
    exact ⟨hReaches.join hFits.proper hFits.length_le hIsDir (by simp), hIsDir, hPointers⟩
  · obtain rfl : fs.put (documentsLocation warehouse kind) (.dir []) = after :=
      (congrArg Prod.fst hMake).symm.trans hAfter
    have hFrames : Frames warehouse stamps [kind] fs _ := frames_of_put hDir hNone
    have hIsDir := entryAt?_put_self hDir (Name.ofString directoryName) (.dir [])
    refine ⟨hFrames, fun _ => ⟨?_, hIsDir, hFrames.onlyPointers hPointers⟩⟩
    exact (hFrames.keepsPaths tableDir links _ hReaches hDir).1.join hFits.proper hFits.length_le
      hIsDir (fun _ hLink => by cases hLink)

/-! Runs. -/

/-- The steps after the first are about entries of the directory that it makes. -/
theorem staysIn_writeSteps {tableDir : Path} {documents : Documents} {stamp : Stamp}
    (hNamed : IsNamedBy documents stamp) :
    ∀ step ∈ (writeSteps tableDir documents).tail,
      StaysIn (tableDir.child directoryName) stamp.fileNames step := by
  have hNodup := stamp.nodup_fileNames
  simp only [Stamp.fileNames, List.map_cons, List.map_nil, List.nodup_cons, List.mem_cons,
    List.not_mem_nil, or_false, not_or] at hNodup
  obtain ⟨⟨hVersion, -⟩, ⟨hHint, hManifest, hList⟩, -⟩ := hNodup
  intro step hStep
  simp only [writeSteps, WrittenFiles.ofTable, hNamed.manifest, hNamed.manifestList, List.tail_cons,
    List.mem_cons, List.not_mem_nil, or_false] at hStep
  rcases hStep with rfl | rfl | rfl | rfl | rfl | rfl
  · exact .file (by simp [Stamp.fileNames]) (Table.fits_versionFileName.mono (by decide)) hVersion
  · exact .clearing
  · exact .pointer
  · exact .file (by simp [Stamp.fileNames]) (Table.fits_versionHintFileName.mono (by decide))
      (Ne.symm hHint)
  · exact .file (by simp [Stamp.fileNames]) ((Table.fits_manifestFileName stamp).mono (by decide))
      (Ne.symm hManifest)
  · exact .file (by simp [Stamp.fileNames])
      ((Table.fits_manifestListFileName stamp).mono (by decide)) (Ne.symm hList)

/-- Writing the documents of a table. -/
theorem frames_of_writeDocuments {tableDir : Path} {documents : Documents}
    {result : Except Failure WrittenFiles} (hNamed : IsNamedBy documents (stamps kind))
    (hReaches : Reaches fs tableDir links (tableLocation warehouse kind))
    (hDir : fs.entryAt? (tableLocation warehouse kind) = some .dir)
    (hPointers : OnlyPointers fs (documentsLocation warehouse kind))
    (hRun : writeDocuments tableDir documents fs = (result, after)) :
    Frames warehouse stamps [kind] fs after := by
  have hStays : ∀ step ∈ (writeSteps tableDir documents).tail,
      StaysIn (tableDir.child directoryName) (stamps kind).fileNames step :=
    staysIn_writeSteps hNamed
  have hSteps : ∃ stopped, runAll (writeSteps tableDir documents) fs = (stopped, after) := by
    rw [writeDocuments_eq_runAll] at hRun
    rcases Activity.bind_eq hRun with ⟨failure, hSteps, -⟩ | ⟨value, last, hSteps, hReturn⟩
    · exact ⟨_, hSteps⟩
    · cases hReturn
      exact ⟨_, hSteps⟩
  obtain ⟨stopped, hSteps⟩ := hSteps
  rcases Activity.bind_eq hSteps with ⟨failure, hFirst, -⟩ | ⟨value, made, hFirst, hRest⟩
  · exact (frames_of_directory hReaches hDir hPointers hFirst).1
  obtain ⟨hMade, hHost⟩ := frames_of_directory hReaches hDir hPointers hFirst
  have hHost := hHost rfl
  apply hMade.trans
  -- Only when the metadata is written is it known not to be a directory.
  rcases Activity.bind_eq hRest with ⟨failure, hMetadata, -⟩ | ⟨value, written, hMetadata, hOthers⟩
  · obtain ⟨rfl, -⟩ := eq_of_run_error (by simp) hMetadata
    exact .refl _
  have hVersionFits := Table.fits_versionFileName.mono (show 16 ≤ maxName by decide)
  have hNe := Table.versionFileName_ne_pointerFileName
  obtain ⟨hAlters, hNoLink⟩ := hHost.alters_of_file hVersionFits hNe hMetadata
  have hWritten : Frames warehouse stamps [kind] made written :=
    hHost.frames_of_alters (by simp [Stamp.fileNames]) hAlters
      (fun hEq => absurd hEq hNe) (fun target hLink => absurd hLink (hNoLink target))
  apply hWritten.trans
  exact (hHost.of_frames hWritten).frames_of_runAll hAlters.after
    (fun step hStep => hStays step (List.mem_cons_of_mem _ hStep)) hOthers

/-- A run over a table that is no link changes nothing but its documents, as long as these have no
other links than pointers. -/
theorem frames_of_generateTable {result : Except Failure TableOutcome}
    (hLink : ∀ target, fs.entryAt? (tableLocation warehouse kind) ≠ some (.link target))
    (hPointers : OnlyPointers fs (documentsLocation warehouse kind))
    (hOnly : OnlyReaches fs config.warehouse warehouse)
    (hRun : generateTable config kind (stamps kind) fs = (result, after)) :
    OnlyReaches after config.warehouse warehouse ∧ Frames warehouse stamps [kind] fs after := by
  rcases generateTable_cases hRun with ⟨-, -, rfl⟩ | ⟨files, _, hFiles, hWrite, -⟩
  · exact ⟨hOnly, .refl _⟩
  · obtain ⟨discovered, hScan, -, -⟩ := recordedFiles?_eq_some hFiles
    obtain ⟨links, hWarehouse, hTable, hDir, -⟩ :=
      reaches_tableDir hLink hOnly (isDir_of_ofTable hScan)
    have hWarehouseDir : fs.entryAt? warehouse = some .dir :=
      entryAt?_of_append (List.cons_ne_nil (Name.ofString kind.name) [])
        (by rw [← tableLocation, hDir]; simp)
    have hFrames : Frames warehouse stamps [kind] fs after :=
      frames_of_writeDocuments ⟨rfl, rfl⟩ hTable hDir hPointers hWrite
    exact ⟨.of_keepsPaths hWarehouse hWarehouseDir hFrames.keepsPaths, hFrames⟩

theorem kind_name_ne_pointerFileName (kind : Kind) :
    Name.ofString kind.name ≠ Name.ofString pointerFileName := by
  intro hEq
  have hName := Name.ofString_injective hEq
  cases kind <;> exact absurd hName (by decide)

/-- What holds of a warehouse while a run goes over its tables. -/
structure IsOpen (config : Configuration) (fs : FileSystem) (warehouse : Location) : Prop where
  pointers : OnlyPointers fs warehouse
  onlyReaches : OnlyReaches fs config.warehouse warehouse

/-- A run over a table keeps to the documents of that table, whatever comes of it. -/
theorem IsOpen.frames_of_generateTable {result : Except Failure TableOutcome}
    (h : IsOpen config fs warehouse)
    (hRun : generateTable config kind (stamps kind) fs = (result, after)) :
    IsOpen config after warehouse ∧ Frames warehouse stamps [kind] fs after := by
  have hLink := h.pointers.no_link (List.prefix_refl warehouse) (kind_name_ne_pointerFileName kind)
  obtain ⟨hOnly, hFrames⟩ := Warehouse.frames_of_generateTable hLink (h.pointers.documents kind)
    h.onlyReaches hRun
  exact ⟨⟨hFrames.onlyPointers h.pointers, hOnly⟩, hFrames⟩

/-- A run over several tables keeps to their documents, whatever comes of it. -/
theorem IsOpen.frames_of_generateTables {result : Except Failure (List TableOutcome)}
    (h : IsOpen config fs warehouse)
    (hRun : generateTables config stamps kinds fs = (result, after)) :
    IsOpen config after warehouse ∧ Frames warehouse stamps kinds fs after := by
  apply generateTables_induction (fun fs => IsOpen config fs warehouse)
    (Frames warehouse stamps kinds) .refl (fun _ _ _ => .trans) ?_ h hRun
  intro kind hKind fs result after hOpen hTable
  obtain ⟨hAfter, hFrames⟩ := hOpen.frames_of_generateTable hTable
  exact ⟨hAfter, hFrames.mono (by simpa using hKind)⟩

/-! What stays as it was. -/

namespace Frames

/-- What is not among the documents of the tables is as it was. -/
theorem entry_eq (h : Frames warehouse stamps kinds fs after)
    (hLocation : ∀ kind ∈ kinds, location ≠ documentsLocation warehouse kind ∧
      ∀ name ∈ (stamps kind).fileNames, location ≠ documentsLocation warehouse kind ++ [name]) :
    after.entryAt? location = fs.entryAt? location := by
  rcases h.entry location fun kind hKind => (hLocation kind hKind).2 with
    hSame | ⟨⟨kind, hKind, hDir⟩, -⟩
  · exact hSame
  · exact absurd hDir (hLocation kind hKind).1

/-- A table that a run does not go over. -/
theorem entry_eq_of_notMem (h : Frames warehouse stamps kinds fs after) (hKind : kind ∉ kinds)
    (hLocation : tableLocation warehouse kind <+: location) :
    after.entryAt? location = fs.entryAt? location := by
  apply h.entry_eq
  intro other hOther
  have hNot (below : Location) : location ≠ tableLocation warehouse other ++ below := by
    rintro rfl
    obtain rfl := eq_of_tableLocation hLocation (List.prefix_append _ below)
    exact hKind hOther
  refine ⟨hNot _, fun name _ => ?_⟩
  rw [documentsLocation, List.append_assoc]
  exact hNot _

/-- An entry of the directory of the documents with another name than those of this run, and all
that it holds. -/
theorem entry_eq_of_name (h : Frames warehouse stamps kinds fs after) (kind : Kind)
    (hName : name ∉ (stamps kind).fileNames) (below : Location) :
    after.entryAt? (documentsLocation warehouse kind ++ name :: below) =
      fs.entryAt? (documentsLocation warehouse kind ++ name :: below) := by
  apply h.entry_eq
  intro other _
  have hInside : tableLocation warehouse kind <+:
      documentsLocation warehouse kind ++ name :: below :=
    (List.prefix_append _ _).trans (List.prefix_append _ _)
  constructor
  · intro hEq
    have hLength := congrArg List.length hEq
    simp [documentsLocation, tableLocation] at hLength
  · intro written hWritten hEq
    have hOther : tableLocation warehouse other <+:
        documentsLocation warehouse other ++ [written] :=
      (List.prefix_append _ _).trans (List.prefix_append _ _)
    obtain rfl := eq_of_tableLocation hInside (hEq ▸ hOther)
    obtain ⟨rfl, -⟩ := List.cons.inj (List.append_cancel_left hEq)
    exact hName hWritten

end Frames

/-- Whatever comes of a run over a warehouse whose only links are pointers, it changes nothing but
the five entries of each table that have the names of its stamp, in a directory that it creates
where there is nothing. These names differ from each other, and from those of the manifests and
manifest lists of other stamps. Tables that it reports as skipped stay as they were. -/
theorem unchanged_of_generate {generatedAt : String} {result : Except Failure Report}
    (hPointers : OnlyPointers fs warehouse) (hLeads : LeadsOnlyTo fs config.warehouse warehouse)
    (h : generate config stamps generatedAt fs = (result, after)) :
    (∀ location, (∀ kind, location ≠ documentsLocation warehouse kind ∧
        ∀ name ∈ (stamps kind).fileNames, location ≠ documentsLocation warehouse kind ++ [name]) →
      after.entryAt? location = fs.entryAt? location) ∧
    (∀ kind, after.entryAt? (documentsLocation warehouse kind) =
        fs.entryAt? (documentsLocation warehouse kind) ∨
      fs.entryAt? (documentsLocation warehouse kind) = none ∧
        after.entryAt? (documentsLocation warehouse kind) = some .dir) ∧
    (∀ stamp : Stamp, stamp.fileNames.Nodup) ∧
    (∀ kind (earlier : Stamp) (below : Location),
      (earlier.manifestUuid ≠ (stamps kind).manifestUuid →
        after.entryAt? (documentsLocation warehouse kind ++
            Name.ofString earlier.manifestFileName :: below) =
          fs.entryAt? (documentsLocation warehouse kind ++
            Name.ofString earlier.manifestFileName :: below)) ∧
      (earlier.timestampMs ≠ (stamps kind).timestampMs →
        after.entryAt? (documentsLocation warehouse kind ++
            Name.ofString earlier.manifestListFileName :: below) =
          fs.entryAt? (documentsLocation warehouse kind ++
            Name.ofString earlier.manifestListFileName :: below))) ∧
    ∀ report, result = .ok report → ∀ kind, ∀ outcome ∈ report.tables, outcome.table = kind.name →
      outcome.status ≠ .written → ∀ location, tableLocation warehouse kind <+: location →
        after.entryAt? location = fs.entryAt? location := by
  have hFrames : Frames warehouse stamps Kind.all fs after := by
    rcases generate_eq h with ⟨rfl, -⟩ | ⟨hDir, tables, hRun, -⟩
    · exact .refl _
    · exact (IsOpen.frames_of_generateTables ⟨hPointers, hLeads.onlyReaches hDir⟩ hRun).2
  refine ⟨?_, ?_, Stamp.nodup_fileNames, ?_, ?_⟩
  · intro location hLocation
    exact hFrames.entry_eq fun kind _ => hLocation kind
  · intro kind
    apply (hFrames.entry _ fun other _ name _ hEq => ?_).imp_right And.right
    have hLength := congrArg List.length hEq
    simp [documentsLocation, tableLocation] at hLength
  · intro kind earlier below
    exact ⟨fun hUuid => hFrames.entry_eq_of_name kind (Stamp.manifestFileName_notMem hUuid) below,
      fun hTime => hFrames.entry_eq_of_name kind (Stamp.manifestListFileName_notMem hTime) below⟩
  · rintro report rfl kind outcome hOutcome hTable hStatus location hLocation
    rcases generate_eq h with ⟨-, failure, hFailure⟩ | ⟨hDir, tables, hRun, hReport⟩
    · cases hFailure
    obtain ⟨outcomes, rfl, rfl⟩ := eq_ok_of_map hReport.symm
    obtain ⟨before, turn, rest, earlier, later, state, next, hKinds, hBefore, hTurn, hLater⟩ :=
      exists_turn hRun hOutcome
    obtain rfl := kind_name_injective ((table_of_generateTable hTurn).symm.trans hTable)
    obtain ⟨hNotBefore, hNotRest⟩ := notMem_of_all_eq hKinds
    obtain ⟨hOpen, hFirst⟩ :=
      IsOpen.frames_of_generateTables ⟨hPointers, hLeads.onlyReaches hDir⟩ hBefore
    -- The table itself is passed over, so that only the runs over the others change something.
    rcases generateTable_eq_ok hTurn with ⟨_, -, -, -, rfl⟩ | ⟨kept, written, -, -, -, rfl⟩
    · obtain ⟨-, hLast⟩ := hOpen.frames_of_generateTables hLater
      rw [hLast.entry_eq_of_notMem hNotRest hLocation]
      exact hFirst.entry_eq_of_notMem hNotBefore hLocation
    · exact absurd rfl hStatus

/-- A run that writes the documents of a table leaves its data file alone. -/
theorem unchanged_of_single_run : ∃ report after,
    OnlyPointers (singleFileTree "height=0-9") [] ∧
    LeadsOnlyTo (singleFileTree "height=0-9") (hereConfiguration 0).warehouse [] ∧
    generate (hereConfiguration 0) (fun _ => ⟨0, default, default⟩) ""
      (singleFileTree "height=0-9") = (.ok report, after) ∧
    after.entryAt? (documentsLocation [] .blocks) = some .dir ∧
    after.entryAt? (dataLocation [] .blocks ++
      [Name.ofString "height=0-9", Name.ofString "a.parquet"]) = some (.file [80, 65, 82, 49]) ∧
    after.entryAt? (tableLocation [] .tags) = none := by
  have hDirName : (Name.ofString "height=0-9").Fits 10 :=
    ⟨Name.isProper_ofString (by decide) (by decide) (by decide), by decide, by decide⟩
  have hUntouched := isUntouched_singleFileTree "height=0-9"
  have hPointers : OnlyPointers (singleFileTree "height=0-9") [] := by
    intro location target hPrefix hLink
    exact absurd hLink (hUntouched.no_link location target hPrefix)
  have hLeads := leadsOnlyTo_here "height=0-9" (show 0 + 1 ≤ maxPath by decide)
  obtain ⟨outcome, others, after, hRun, -, -, hDir⟩ := generate_here hDirName
    (by decide) (by decide) (show 0 + 10 + 74 ≤ maxPath by decide)
    (fun _ => ⟨0, default, default⟩) ""
  obtain ⟨hSame, -⟩ := unchanged_of_generate hPointers hLeads hRun
  have hOutside (location : Location)
      (hLocation : ∀ kind, ¬documentsLocation [] kind <+: location) :
      after.entryAt? location = (singleFileTree "height=0-9").entryAt? location := by
    apply hSame
    intro kind
    constructor
    · rintro rfl
      exact hLocation kind (List.prefix_refl _)
    · rintro name - rfl
      exact hLocation kind (List.prefix_append _ _)
  refine ⟨_, after, hPointers, hLeads, hRun, hDir, ?_, ?_⟩
  · rw [hOutside _ fun kind hPrefix =>
      (not_prefix_of_documents hPrefix).2 (List.prefix_append (dataLocation [] .blocks) _)]
    rfl
  · rw [hOutside _ fun kind => not_prefix_of_table.1]
    rfl

end ExportKit.Warehouse
