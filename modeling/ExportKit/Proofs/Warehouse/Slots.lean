import ExportKit.Proofs.Warehouse.Discovery
import Mathlib.Logic.Function.Basic

/-!
Writing documents, told by the entries of their directory alone. What becomes of an entry depends
on the entry and on what has its name, and so does whether it can be written. Hence two runs that
find the same entries write the same, and a run that finds what it wrote before changes nothing.
-/
namespace ExportKit

/-- Why a device does not take some content, if it does not. -/
def Device.refusal? : Device → List UInt8 → Option Fault
  | .full, content => if content = [] then none else some .noSpace
  | .terminal, _ => some .noDevice
  | .null, _ | .output, _ => none

namespace FileSystem

variable {fs : FileSystem} {device : Device} {content : List UInt8}

/-- A device that refuses the content is not written to. -/
theorem put_of_refusal? {fault : Fault} (h : device.refusal? content = some fault) :
    device.put fs content = .error fault := by
  cases device with
  | null | output => cases h
  | full =>
      rw [Device.refusal?] at h
      split at h
      next => cases h
      next hContent =>
        obtain rfl := Option.some_inj.mp h
        rw [Device.put, if_neg hContent]
  | terminal =>
      obtain rfl := Option.some_inj.mp h
      rfl

theorem exists_put (h : device.refusal? content = none) (fs : FileSystem) :
    ∃ after, device.put fs content = .ok after := by
  cases device with
  | null | output => exact ⟨_, rfl⟩
  | full =>
      rw [Device.refusal?] at h
      split at h
      next hContent => exact ⟨fs, by rw [Device.put, if_pos hContent]⟩
      next => cases h
  | terminal => cases h

end FileSystem

namespace Warehouse

open FileSystem
open Table (Documents Kind Stamp)
open Table.Documents (directoryName fileText pointerFileName versionFileName versionHint)

variable {fs after : FileSystem} {warehouse : Location} {kind : Kind}
  {path tableDir : Path} {links : Nat} {name : Name} {entry found : Entry}
  {before : Option Entry} {files : List (Name × Entry)} {documents : Documents}

/-- The entries of a directory by their names. -/
abbrev Slots := Name → Option Entry

/-- What a directory shows. -/
def slotsAt (fs : FileSystem) (dir : Location) : Slots := fun name => fs.entryAt? (dir ++ [name])

/-- What stands in a place once a file is written there. Devices take what is written and stay, and
directories are not replaced. -/
def fileAfter (content : List UInt8) : Option Entry → Except Fault Entry
  | some .dir => .error .isDirectory
  | some (.device device) =>
    match device.refusal? content with
    | some fault => .error fault
    | none => .ok (.device device)
  | none | some (.file _) | some (.link _) => .ok (.file content)

/-- What stands in a place once the pointer is made there. -/
def pointerAfter : Option Entry → Except Fault Entry
  | some .dir => .error .isDirectory
  | none | some (.file _) | some (.link _) | some (.device _) =>
    .ok (.link (.ofString versionFileName))

/-- What stands in a place once an entry is put there, a file or the pointer. -/
def entryAfter : Entry → Option Entry → Except Fault Entry
  | .file content => fileAfter content
  | .link _ | .dir | .device _ => pointerAfter

/-- The same for a path to the place, which may be refused. -/
def slotAfter (path : Path) (entry : Entry) (before : Option Entry) : Except Fault Entry :=
  match refusal? path with
  | some fault => .error fault
  | none => entryAfter entry before

/-- The entries of a directory once some entries are put there in turn, up to the first that is
refused. -/
def putSlots (dir : Path) : List (Name × Entry) → Slots → Except Failure Unit × Slots
  | [], slots => (.ok (), slots)
  | (name, entry) :: rest, slots =>
    match slotAfter (dir.join ⟨name⟩) entry (slots name) with
    | .ok found => putSlots dir rest (Function.update slots name (some found))
    | .error fault => (.error (.io (dir.join ⟨name⟩) fault), slots)

/-- Whether a directory can be made where something may stand. -/
def dirAfter (path : Path) (before : Option Entry) : Except Fault Unit :=
  match refusal? path with
  | some fault => .error fault
  | none =>
    match before with
    | none | some .dir => .ok ()
    | some (.file _) | some (.link _) | some (.device _) => .error .alreadyExists

/-- What becomes of the directory of the documents and of its entries when documents are written. -/
def writeSlots (tableDir : Path) (documents : Documents) (before : Option Entry) (slots : Slots) :
    Except Failure WrittenFiles × Option Entry × Slots :=
  match dirAfter (tableDir.child directoryName) before with
  | .error fault => (.error (.io (tableDir.child directoryName) fault), before, slots)
  | .ok () =>
    match putSlots (tableDir.child directoryName) (filesOf documents) slots with
    | (result, slots) => (result.map fun _ => .ofTable tableDir documents, some .dir, slots)

/-! Writing again. -/

/-- An entry as runs put it. -/
def IsDocument (entry : Entry) : Prop :=
  (∃ content, entry = .file content) ∨ entry = .link (.ofString versionFileName)

/-- An entry that a run has put stays if it is put again. -/
theorem entryAfter_found (hEntry : IsDocument entry) (h : entryAfter entry before = .ok found) :
    entryAfter entry (some found) = .ok found ∧
      (found = entry ∨ ∃ device, found = .device device) := by
  rcases hEntry with ⟨content, rfl⟩ | rfl
  · rw [entryAfter, fileAfter.eq_def] at h
    split at h
    next => cases h
    next device =>
      split at h
      next => cases h
      next hTakes =>
        cases h
        refine ⟨?_, .inr ⟨device, rfl⟩⟩
        rw [entryAfter, fileAfter, hTakes]
    all_goals
      cases h
      exact ⟨rfl, .inl rfl⟩
  · rw [entryAfter, pointerAfter.eq_def] at h
    split at h
    next => cases h
    all_goals
      cases h
      exact ⟨rfl, .inl rfl⟩

/-- A document that stands in a place is put there again without a change. -/
theorem slotAfter_found (hEntry : IsDocument entry) (h : slotAfter path entry before = .ok found) :
    slotAfter path entry (some found) = .ok found ∧
      (found = entry ∨ ∃ device, found = .device device) := by
  rw [slotAfter] at h ⊢
  cases hRefusal : refusal? path with
  | some fault =>
      rw [hRefusal] at h
      cases h
  | none =>
      rw [hRefusal] at h
      exact entryAfter_found hEntry h

/-- An entry is there as it is put, or a device in its place has taken it. -/
structure IsSettled (dir : Path) (slots : Slots) (name : Name) (entry : Entry) : Prop where
  again : ∃ found, slots name = some found ∧ slotAfter (dir.join ⟨name⟩) entry (some found) = .ok found
  holds : slots name = some entry ∨ ∃ device, slots name = some (.device device)

/-- Entries with different names that could all be put are there in the end, and nothing else
differs. -/
theorem isSettled_of_putSlots {dir : Path} {slots last : Slots}
    (hNames : (files.map (·.1)).Nodup) (hEntries : ∀ file ∈ files, IsDocument file.2)
    (h : putSlots dir files slots = (.ok (), last)) :
    (∀ file ∈ files, IsSettled dir last file.1 file.2) ∧
      ∀ name ∉ files.map (·.1), last name = slots name := by
  induction files generalizing slots with
  | nil =>
      cases h
      exact ⟨fun _ hFile => absurd hFile List.not_mem_nil, fun _ _ => rfl⟩
  | cons file rest ih =>
      obtain ⟨name, entry⟩ := file
      obtain ⟨hName, hRest⟩ := List.nodup_cons.mp hNames
      rw [putSlots] at h
      split at h
      next found hFound =>
        obtain ⟨hSettled, hOthers⟩ := ih hRest
          (fun file hFile => hEntries file (List.mem_cons_of_mem _ hFile)) h
        have hLast : last name = some found := by
          rw [hOthers name hName, Function.update_self]
        obtain ⟨hAgain, hHolds⟩ := slotAfter_found (hEntries _ List.mem_cons_self) hFound
        constructor
        · intro file hFile
          rcases List.mem_cons.mp hFile with rfl | hFile
          · refine ⟨⟨found, hLast, hAgain⟩, ?_⟩
            rcases hHolds with rfl | ⟨device, rfl⟩
            · exact .inl hLast
            · exact .inr ⟨device, hLast⟩
          · exact hSettled file hFile
        · intro other hOther
          obtain ⟨hNe, hNotMem⟩ := not_or.mp (mt List.mem_cons.mpr hOther)
          rw [hOthers other hNotMem, Function.update_of_ne hNe]
      next => cases h

/-- Documents that are settled are put again without a change. -/
theorem putSlots_of_isSettled {dir : Path} {slots : Slots}
    (h : ∀ file ∈ files, IsSettled dir slots file.1 file.2) :
    putSlots dir files slots = (.ok (), slots) := by
  induction files with
  | nil => rfl
  | cons file rest ih =>
      obtain ⟨name, entry⟩ := file
      obtain ⟨found, hFound, hAgain⟩ := (h _ List.mem_cons_self).again
      replace hFound : slots name = some found := hFound
      replace hAgain : slotAfter (dir.join ⟨name⟩) entry (some found) = .ok found := hAgain
      rw [putSlots, hFound, hAgain]
      simp only [← hFound, Function.update_eq_self]
      exact ih fun file hFile => h file (List.mem_cons_of_mem _ hFile)

theorem isDocument_of_mem_filesOf {file : Name × Entry} (h : file ∈ filesOf documents) :
    IsDocument file.2 := by
  simp only [filesOf, List.mem_cons, List.not_mem_nil, or_false] at h
  rcases h with rfl | rfl | rfl | rfl | rfl
  case inr.inl => exact .inr rfl
  all_goals exact .inl ⟨_, rfl⟩

/-- Documents that could be written are there, and to write them again changes nothing. -/
theorem writeSlots_of_ok {stamp : Stamp} {slots last : Slots} {before dir : Option Entry}
    {written : WrittenFiles} (hNamed : IsNamedBy documents stamp)
    (h : writeSlots tableDir documents before slots = (.ok written, dir, last)) :
    written = .ofTable tableDir documents ∧ dir = some .dir ∧
      writeSlots tableDir documents dir last = (.ok written, dir, last) ∧
      ∀ file ∈ filesOf documents,
        last file.1 = some file.2 ∨ ∃ device, last file.1 = some (.device device) := by
  rw [writeSlots] at h
  split at h
  next => cases h
  next hDir =>
    cases hPut : putSlots (tableDir.child directoryName) (filesOf documents) slots with
    | mk result changed =>
        rw [hPut] at h
        cases result with
        | error failure => cases h
        | ok value =>
            cases h
            obtain ⟨hSettled, -⟩ := isSettled_of_putSlots (nodup_filesOf hNamed)
              (fun _ hFile => isDocument_of_mem_filesOf hFile) hPut
            have hAgain : dirAfter (tableDir.child directoryName) (some .dir) = .ok () := by
              rw [dirAfter.eq_def] at hDir ⊢
              cases hRefusal : refusal? (tableDir.child directoryName) with
              | some fault =>
                  rw [hRefusal] at hDir
                  cases hDir
              | none => rfl
            refine ⟨rfl, rfl, ?_, fun file hFile => (hSettled file hFile).holds⟩
            rw [writeSlots, hAgain, putSlots_of_isSettled hSettled]
            rfl

/-! Runs. -/

/-- Puts an entry into a directory, as runs do. -/
def putEntry (dir : Path) (name : Name) : Entry → Activity Unit
  | .file content => Activity.change (dir.join ⟨name⟩) fun fs => fs.putFile (dir.join ⟨name⟩) content
  | .link _ | .dir | .device _ => writePointer (dir.join ⟨name⟩)

/-- Puts entries into a directory one after the other. -/
def putEntries (dir : Path) : List (Name × Entry) → Activity Unit
  | [] => return ()
  | (name, entry) :: rest => do
    putEntry dir name entry
    putEntries dir rest

/-- Writing documents is making the directory and putting entries into it. -/
theorem writeDocuments_eq_putEntries (tableDir : Path) (documents : Documents) :
    writeDocuments tableDir documents = (do
      Activity.makeDirAll (tableDir.child directoryName)
      putEntries (tableDir.child directoryName) (filesOf documents)
      return WrittenFiles.ofTable tableDir documents) := by
  simp only [putEntries, filesOf, bind_assoc, pure_bind]
  rfl

/-- What putting an entry comes to: it is refused and nothing changes, or it is there. -/
def PutsSlot (path : Path) (entry : Entry) (location : Location) (fs : FileSystem)
    (result : Except Failure Unit) (after : FileSystem) : Prop :=
  (∃ fault, slotAfter path entry (fs.entryAt? location) = .error fault ∧
      result = .error (.io path fault) ∧ after = fs) ∨
    ∃ found, slotAfter path entry (fs.entryAt? location) = .ok found ∧ result = .ok () ∧
      Alters location fs after ∧ after.entryAt? location = some found

/-- A change of an entry that its path names, told by what it comes to. -/
theorem putsSlot_of_change {operation : FileSystem → Except Fault FileSystem} {location : Location}
    {result : Except Failure Unit}
    (h : (∃ fault, slotAfter path entry (fs.entryAt? location) = .error fault ∧
        operation fs = .error fault) ∨
      ∃ found changed, slotAfter path entry (fs.entryAt? location) = .ok found ∧
        operation fs = .ok changed ∧ Alters location fs changed ∧
        changed.entryAt? location = some found)
    (hRun : Activity.change path operation fs = (result, after)) :
    PutsSlot path entry location fs result after := by
  rcases h with ⟨fault, hSlot, hFault⟩ | ⟨found, changed, hSlot, hChanged, hAlters, hEntry⟩
  · cases hRun.symm.trans (Activity.change_of_error hFault)
    exact .inl ⟨fault, hSlot, rfl, rfl⟩
  · cases hRun.symm.trans (Activity.change_of_ok hChanged)
    exact .inr ⟨found, hSlot, rfl, hAlters, hEntry⟩

/-- Putting a file into the directory changes that entry as it should, or is refused. -/
theorem IsHost.putsSlot_file {content : List UInt8} {result : Except Failure Unit}
    (h : IsHost fs warehouse kind path links) (hFits : name.Fits maxName)
    (hName : name ≠ Name.ofString pointerFileName)
    (hRun : putEntry path name (.file content) fs = (result, after)) :
    PutsSlot (path.join ⟨name⟩) (.file content) (documentsLocation warehouse kind ++ [name]) fs
      result after := by
  have hNoLink := h.no_link hName
  have hResolve (hAccepts : Accepts (path.join ⟨name⟩)) :
      fs.resolve .create (path.join ⟨name⟩) = _ :=
    h.reaches.resolve_entry h.isDir hFits.proper hFits.length_le hAccepts (.inr (.inr hNoLink))
  generalize documentsLocation warehouse kind ++ [name] = location at hNoLink hResolve ⊢
  rw [putEntry] at hRun
  refine putsSlot_of_change ?_ hRun
  rw [slotAfter]
  cases hRefusal : refusal? (path.join ⟨name⟩) with
  | some fault =>
      refine .inl ⟨fault, rfl, ?_⟩
      rw [putFile, resolve_of_refusal? hRefusal]
      rfl
  | none =>
      have hSpot := hResolve (accepts_of_refusal? hRefusal)
      have hWritten {node? : Option Node} (hNode : fs.at? location = node?)
          (hNotDir : ∀ node, node? = some node → ¬node.isDir) :
          Alters location fs (fs.put location (.file content)) ∧
            (fs.put location (.file content)).entryAt? location = some (.file content) :=
        alters_put hSpot (hNode ▸ hNotDir) (by simp [Node.isDir])
      rw [entryAfter, entryAt?, putFile, hSpot]
      cases hNode : fs.at? location with
      | none =>
          exact .inr ⟨_, _, rfl, rfl, hWritten hNode (by simp)⟩
      | some node =>
          cases node with
          | file old => exact .inr ⟨_, _, rfl, rfl, hWritten hNode (by simp [Node.isDir])⟩
          | dir entries => exact .inl ⟨_, rfl, rfl⟩
          | link target => exact absurd (by rw [entryAt?, hNode]; rfl) (hNoLink target)
          | device device =>
              have hBefore : fs.entryAt? location = some (.device device) := by
                rw [entryAt?, hNode]
                rfl
              cases hTakes : device.refusal? content with
              | some fault =>
                  refine .inl ⟨fault, ?_, put_of_refusal? hTakes⟩
                  rw [Option.map_some, Node.entry, fileAfter, hTakes]
              | none =>
                  obtain ⟨changed, hChanged⟩ := exists_put hTakes fs
                  obtain ⟨hEntries, hWorkingDir⟩ := rootEntries_of_put hChanged
                  have hSame := entryAt?_congr hEntries
                  refine .inr ⟨.device device, changed, ?_, hChanged,
                    ⟨fun other _ => hSame other, by simp [hBefore], by simp [hSame, hBefore],
                      hWorkingDir⟩, (hSame _).trans hBefore⟩
                  rw [Option.map_some, Node.entry, fileAfter, hTakes]

/-- A link cannot be made at a path that is refused for its spelling. -/
theorem makeLink_of_refusal? {target : Path} {fault : Fault} (hTarget : Accepts target)
    (hRefusal : refusal? path = some fault) : fs.makeLink target path = .error fault := by
  have hZero : target.bytes.contains 0 = false := by simpa using hTarget.not_mem_zero
  rw [makeLink, hZero, if_neg (by simp), if_neg hTarget.ne_nil,
    if_neg (Nat.not_lt.mpr hTarget.length_le), resolve_of_refusal? hRefusal]
  rfl

/-- The link of the pointer is made where nothing has its name any more. -/
theorem IsHost.alters_of_makeLink {cleared : FileSystem} {result : Except Failure Unit}
    (h : IsHost cleared warehouse kind path links)
    (hAccepts : Accepts (path.child pointerFileName))
    (hChanges : ChangesOnly (documentsLocation warehouse kind ++ [Name.ofString pointerFileName]) fs
      cleared)
    (hNone : cleared.entryAt? (documentsLocation warehouse kind ++
      [Name.ofString pointerFileName]) = none)
    (hBefore : fs.entryAt? (documentsLocation warehouse kind ++
      [Name.ofString pointerFileName]) ≠ some .dir)
    (hRun : Activity.change (path.child pointerFileName)
      (fun fs => fs.makeLink (.ofString versionFileName) (path.child pointerFileName)) cleared =
        (result, after)) :
    result = .ok () ∧
      Alters (documentsLocation warehouse kind ++ [Name.ofString pointerFileName]) fs after ∧
      after.entryAt? (documentsLocation warehouse kind ++ [Name.ofString pointerFileName]) =
        some (.link (.ofString versionFileName)) := by
  have hFits := Table.fits_pointerFileName.mono (show 13 ≤ maxName by decide)
  have hMake := makeLink_entry h.reaches h.isDir hFits.proper hFits.length_le hAccepts hNone
    accepts_versionFileName
  cases hRun.symm.trans (Activity.change_of_ok hMake)
  have hSelf := entryAt?_put_self h.isDir (Name.ofString pointerFileName)
    (.link (.ofString versionFileName))
  refine ⟨rfl, .of_changesOnly (hChanges.trans (changesOnly_put h.isDir _ _)) hBefore ?_, hSelf⟩
  rw [hSelf]
  simp [Node.entry]

/-- The pointer is made, in place of anything but a directory. -/
theorem IsHost.putsSlot_pointer {result : Except Failure Unit}
    (h : IsHost fs warehouse kind path links)
    (hVersion : fs.entryAt? (documentsLocation warehouse kind ++
      [Name.ofString versionFileName]) ≠ some .dir)
    (hRun : writePointer (path.child pointerFileName) fs = (result, after)) :
    PutsSlot (path.child pointerFileName) (.link (.ofString versionFileName))
      (documentsLocation warehouse kind ++ [Name.ofString pointerFileName]) fs result after := by
  have hFits := Table.fits_pointerFileName.mono (show 13 ≤ maxName by decide)
  rw [PutsSlot, slotAfter]
  cases hRefusal : refusal? (path.child pointerFileName) with
  | some fault =>
      have hNotFound : ¬(fs.linkStatus (path.child pointerFileName)).isOk := by
        rw [linkStatus, resolve_of_refusal? hRefusal]
        exact Bool.false_ne_true
      have hMake : fs.makeLink (.ofString versionFileName) (path.child pointerFileName) =
          .error fault := makeLink_of_refusal? accepts_versionFileName hRefusal
      rw [Warehouse.writePointer, Activity.get_bind_apply, if_neg hNotFound] at hRun
      cases hRun.symm.trans (Activity.change_of_error hMake)
      exact .inl ⟨fault, rfl, rfl, rfl⟩
  | none =>
      have hAccepts := accepts_of_refusal? hRefusal
      have hIsOk : (fs.linkStatus (path.child pointerFileName)).isOk ↔ fs.entryAt?
          (documentsLocation warehouse kind ++ [Name.ofString pointerFileName]) ≠ none :=
        isOk_linkStatus h.reaches h.isDir hFits.proper hFits.length_le hAccepts
      cases hEntry : fs.entryAt?
          (documentsLocation warehouse kind ++ [Name.ofString pointerFileName]) with
      | none =>
          have hNotFound : ¬(fs.linkStatus (path.child pointerFileName)).isOk :=
            fun hOk => hIsOk.mp hOk hEntry
          rw [Warehouse.writePointer, Activity.get_bind_apply, if_neg hNotFound] at hRun
          have hMade := h.alters_of_makeLink hAccepts (.refl _ fs) hEntry (by simp [hEntry]) hRun
          exact .inr ⟨_, rfl, hMade⟩
      | some found =>
          by_cases hFoundDir : found = .dir
          · subst hFoundDir
            cases hRun.symm.trans (writePointer_of_blocked h.reaches h.isDir hAccepts hEntry)
            exact .inl ⟨_, rfl, rfl, rfl⟩
          -- What has the name of the pointer is removed first. The directory is still reached then.
          have hRemove := removeFile_entry h.reaches h.isDir hFits.proper hFits.length_le hAccepts
            hEntry hFoundDir
          have hErase := changesOnly_erase h.isDir (Name.ofString pointerFileName)
          have hGone := entryAt?_erase_self h.isDir (Name.ofString pointerFileName)
          have hBefore : fs.entryAt? (documentsLocation warehouse kind ++
              [Name.ofString pointerFileName]) ≠ some .dir := by
            simpa [hEntry] using hFoundDir
          have hFrames : Frames warehouse (fun _ => ⟨0, default, default⟩) [kind] fs _ :=
            h.frames_of_alters (by simp [Stamp.fileNames])
              (.of_changesOnly hErase hBefore (by simp [hGone])) (fun _ => hVersion)
              (fun target hLink => by cases hGone.symm.trans hLink)
          have hFound := hIsOk.mpr (by simp [hEntry])
          rw [Warehouse.writePointer, Activity.get_bind_apply, if_pos hFound] at hRun
          have hMade := (h.of_frames hFrames).alters_of_makeLink hAccepts hErase hGone hBefore
            ((Activity.bind_of_ok (Activity.change_of_ok hRemove)).symm.trans hRun)
          refine .inr ⟨_, ?_, hMade⟩
          cases found with
          | dir => exact absurd rfl hFoundDir
          | file | link | device => rfl

/-! Several entries. -/

/-- An entry as runs put it under a name. -/
theorem IsHost.putsSlot {result : Except Failure Unit} (h : IsHost fs warehouse kind path links)
    (hFits : name.Fits maxName) (hEntry : IsTidyEntry name entry)
    (hVersion : name = Name.ofString pointerFileName →
      fs.entryAt? (documentsLocation warehouse kind ++ [Name.ofString versionFileName]) ≠ some .dir)
    (hRun : putEntry path name entry fs = (result, after)) :
    PutsSlot (path.join ⟨name⟩) entry (documentsLocation warehouse kind ++ [name]) fs result
      after := by
  rw [IsTidyEntry] at hEntry
  split at hEntry
  next hName =>
    subst hName hEntry
    exact h.putsSlot_pointer (hVersion rfl) hRun
  next hName =>
    obtain ⟨content, rfl⟩ := hEntry
    exact h.putsSlot_file hFits hName hRun

/-- The entries of a directory of documents after a change of one of them. -/
theorem slotsAt_of_alters {dir : Location} (h : Alters (dir ++ [name]) fs after)
    (hEntry : after.entryAt? (dir ++ [name]) = some found) :
    slotsAt after dir = Function.update (slotsAt fs dir) name (some found) := by
  funext other
  by_cases hName : other = name
  · subst hName
    rw [Function.update_self]
    exact hEntry
  · rw [Function.update_of_ne hName]
    exact h.changesOnly.entry_of_ne hName

/-- A device or the entry itself is what comes of putting an entry, so new links are pointers. -/
theorem isPointer_of_slotAfter {dir : Location} {target : Path} (hEntry : IsTidyEntry name entry)
    (h : slotAfter path entry before = .ok (.link target)) : IsPointer (dir ++ [name]) target := by
  rw [IsTidyEntry] at hEntry
  split at hEntry
  next hName =>
    subst hName hEntry
    rcases (slotAfter_found (.inr rfl) h).2 with hLink | ⟨device, hDevice⟩
    · exact ⟨List.getLast?_concat, Entry.link.inj hLink⟩
    · cases hDevice
  next =>
    obtain ⟨content, rfl⟩ := hEntry
    rcases (slotAfter_found (.inl ⟨content, rfl⟩) h).2 with hFile | ⟨device, hDevice⟩
    · cases hFile
    · cases hDevice

/-- Nothing differs but entries of a directory. -/
structure ChangesSlots (dir : Location) (fs after : FileSystem) : Prop where
  entry : ∀ location, (∀ name, location ≠ dir ++ [name]) →
    after.entryAt? location = fs.entryAt? location
  workingDir : after.workingDir = fs.workingDir

theorem ChangesSlots.refl (dir : Location) (fs : FileSystem) : ChangesSlots dir fs fs :=
  ⟨fun _ _ => rfl, rfl⟩

/-- What changes one entry and then some changes some. -/
theorem ChangesSlots.of_alters {dir : Location} {middle : FileSystem}
    (first : Alters (dir ++ [name]) fs middle) (second : ChangesSlots dir middle after) :
    ChangesSlots dir fs after := by
  refine ⟨fun location hLocation => ?_, second.workingDir.trans first.workingDir⟩
  rw [second.entry location hLocation, first.entry location (hLocation name)]

/-- Putting entries into the directory of the documents does what is told by its entries. Where a
directory has the name of the metadata, the metadata comes first, so that the pointer is only
changed when that has been replaced. -/
theorem IsHost.putSlots_eq {result : Except Failure Unit} {stamp : Stamp}
    (h : IsHost fs warehouse kind path links)
    (hVersion : fs.entryAt? (documentsLocation warehouse kind ++
        [Name.ofString versionFileName]) ≠ some .dir ∨
      ∃ entry rest, files = (Name.ofString versionFileName, entry) :: rest)
    (hFiles : ∀ file ∈ files, file.1 ∈ stamp.fileNames ∧ file.1.Fits maxName ∧
      IsTidyEntry file.1 file.2)
    (hRun : putEntries path files fs = (result, after)) :
    putSlots path files (slotsAt fs (documentsLocation warehouse kind)) =
        (result, slotsAt after (documentsLocation warehouse kind)) ∧
      ChangesSlots (documentsLocation warehouse kind) fs after := by
  induction files generalizing fs with
  | nil =>
      cases hRun
      exact ⟨rfl, .refl _ _⟩
  | cons file rest ih =>
      obtain ⟨name, entry⟩ := file
      obtain ⟨hName, hFits, hEntry⟩ := hFiles _ List.mem_cons_self
      have hPointer : name = Name.ofString pointerFileName → fs.entryAt?
          (documentsLocation warehouse kind ++ [Name.ofString versionFileName]) ≠ some .dir := by
        rintro rfl
        rcases hVersion with hVersion | ⟨first, others, hEq⟩
        · exact hVersion
        · exact absurd (Prod.mk.inj (List.cons.inj hEq).1).1.symm
            Table.versionFileName_ne_pointerFileName
      rw [putSlots, slotsAt]
      rw [putEntries] at hRun
      rcases Activity.bind_eq hRun with ⟨failure, hPut, rfl⟩ | ⟨value, middle, hPut, hRest⟩
      · rcases h.putsSlot hFits hEntry hPointer hPut with
          ⟨fault, hSlot, hFailure, rfl⟩ | ⟨_, _, hOk, _⟩
        · rw [hSlot]
          cases hFailure
          exact ⟨rfl, .refl _ _⟩
        · cases hOk
      · rcases h.putsSlot hFits hEntry hPointer hPut with
          ⟨_, _, hError, _⟩ | ⟨found, hSlot, -, hAlters, hFound⟩
        · cases hError
        · have hFrames : Frames warehouse (fun _ => stamp) [kind] fs middle :=
            h.frames_of_alters hName hAlters hPointer fun target hLink => by
              obtain rfl := Option.some_inj.mp (hFound.symm.trans hLink)
              exact isPointer_of_slotAfter hEntry hSlot
          have hVersionAfter : middle.entryAt? (documentsLocation warehouse kind ++
              [Name.ofString versionFileName]) ≠ some .dir := by
            rcases hVersion with hVersion | ⟨first, others, hEq⟩
            · exact hAlters.ne_dir hVersion
            · obtain ⟨rfl, -⟩ := Prod.mk.inj (List.cons.inj hEq).1
              exact hAlters.after
          obtain ⟨hSlots, hChanges⟩ := ih (h.of_frames hFrames) (.inl hVersionAfter)
            (fun file hFile => hFiles file (List.mem_cons_of_mem _ hFile)) hRest
          rw [hSlot]
          simp only
          rw [← hSlots, slotsAt_of_alters hAlters hFound]
          exact ⟨rfl, hChanges.of_alters hAlters⟩

/-! Documents. -/

/-- A directory is made just where one may stand. -/
theorem makeDirAll_eq_dirAfter {dir : Location} (h : Reaches fs path links dir)
    (hDir : fs.entryAt? dir = some .dir) (hFits : name.Fits maxName)
    (hLink : ∀ target, fs.entryAt? (dir ++ [name]) ≠ some (.link target)) :
    (∃ fault, dirAfter (path.join ⟨name⟩) (fs.entryAt? (dir ++ [name])) = .error fault ∧
        fs.makeDirAll (path.join ⟨name⟩) = (fs, .error fault)) ∨
      ∃ made, dirAfter (path.join ⟨name⟩) (fs.entryAt? (dir ++ [name])) = .ok () ∧
        fs.makeDirAll (path.join ⟨name⟩) = (made, .ok ()) ∧
        made.entryAt? (dir ++ [name]) = some .dir ∧
        (∀ other, other ≠ dir ++ [name] → made.entryAt? other = fs.entryAt? other) ∧
        made.workingDir = fs.workingDir := by
  have hNe := Path.bytes_join_ne_nil hFits.proper path
  rw [dirAfter.eq_def]
  cases hRefusal : refusal? (path.join ⟨name⟩) with
  | some fault =>
      refine .inl ⟨fault, rfl, ?_⟩
      have hRefused (ending : Ending) := resolve_of_refusal? hRefusal fs ending
      have hFault : fault ≠ .notFound := by
        rintro rfl
        have hNotAccepts : ¬Accepts (path.join ⟨name⟩) := by
          intro hAccepts
          cases hRefusal.symm.trans (refusal?_of_accepts hAccepts)
        rcases resolve_of_not_accepts fs .name hNe hNotAccepts with hOther | hOther
        all_goals cases (hRefused .name).symm.trans hOther
      have hIsDir : fs.isDir (path.join ⟨name⟩) = false := by
        rw [isDir, status_of_error (hRefused .follow)]
      have hMake : fs.makeDir (path.join ⟨name⟩) = .error fault := by
        rw [makeDir, hRefused .name]
        rfl
      rw [makeDirAll, if_neg hNe, chain, makeDirs, hMake]
      cases fault with
      | notFound => exact absurd rfl hFault
      | _ => simp [hIsDir]
  | none =>
      have hAccepts := accepts_of_refusal? hRefusal
      cases hEntry : fs.entryAt? (dir ++ [name]) with
      | none =>
          have hMake := makeDirAll_entry h hDir hFits.proper hFits.length_le hAccepts hEntry
          exact .inr ⟨_, rfl, hMake, entryAt?_put_self hDir name _,
            fun other hOther => entryAt?_put_emptyDir hDir hEntry hOther, workingDir_put _ _ _⟩
      | some found =>
          obtain ⟨node, hNode, rfl⟩ := Option.map_eq_some_iff.mp hEntry
          have hMake := makeDir_of_at? h hDir hFits.proper hFits.length_le hAccepts hNode
          have hIsDir : fs.isDir (path.join ⟨name⟩) = node.isDir := by
            rw [isDir, h.status_name hDir hFits.proper hFits.length_le hAccepts hLink, hNode]
            rfl
          rw [makeDirAll, if_neg hNe, chain, makeDirs, hMake]
          cases node with
          | dir entries =>
              exact .inr ⟨fs, rfl, by rw [hIsDir]; rfl, hEntry, fun _ _ => rfl, rfl⟩
          | file | link | device => exact .inl ⟨_, rfl, by rw [hIsDir]; rfl⟩

/-- The entries of the documents have the names that the stamp gives out. -/
theorem names_filesOf {stamp : Stamp} (hNamed : IsNamedBy documents stamp) :
    (filesOf documents).map (·.1) = stamp.fileNames := by
  rw [Stamp.fileNames, ← hNamed.manifest, ← hNamed.manifestList]
  rfl

/-- The entries of the documents leave the directory tidy. -/
theorem isTidyEntry_of_mem_filesOf {stamp : Stamp} (hNamed : IsNamedBy documents stamp)
    {file : Name × Entry} (h : file ∈ filesOf documents) :
    file.1 ∈ stamp.fileNames ∧ file.1.Fits maxName ∧ IsTidyEntry file.1 file.2 := by
  have hMem : file.1 ∈ stamp.fileNames := names_filesOf hNamed ▸ List.mem_map_of_mem h
  have hNodup := stamp.nodup_fileNames
  simp only [Stamp.fileNames, List.map_cons, List.map_nil, List.nodup_cons, List.mem_cons,
    List.not_mem_nil, or_false, not_or] at hNodup
  obtain ⟨⟨hVersion, -⟩, ⟨hHint, hManifest, hList⟩, -⟩ := hNodup
  have hFile {name : Name} {n : Nat} (content : List UInt8) (hFits : name.Fits n)
      (hLe : n ≤ maxName) (hName : name ≠ Name.ofString pointerFileName) :
      name.Fits maxName ∧ IsTidyEntry name (.file content) := by
    rw [IsTidyEntry, if_neg hName]
    exact ⟨hFits.mono hLe, content, rfl⟩
  refine ⟨hMem, ?_⟩
  simp only [filesOf, hNamed.manifest, hNamed.manifestList, List.mem_cons, List.not_mem_nil,
    or_false] at h
  rcases h with rfl | rfl | rfl | rfl | rfl
  · exact hFile _ Table.fits_versionFileName (by decide) hVersion
  · refine ⟨Table.fits_pointerFileName.mono (by decide), ?_⟩
    rw [IsTidyEntry, if_pos rfl]
  · exact hFile _ Table.fits_versionHintFileName (by decide) (Ne.symm hHint)
  · exact hFile _ (Table.fits_manifestFileName stamp) (by decide) (Ne.symm hManifest)
  · exact hFile _ (Table.fits_manifestListFileName stamp) (by decide) (Ne.symm hList)

/-- What writing the documents of a table changes: the directory of the documents, which it may
make, and entries of it. -/
structure ChangesDocuments (warehouse : Location) (kind : Kind) (fs after : FileSystem) :
    Prop where
  entry : ∀ location, location ≠ documentsLocation warehouse kind →
    (∀ name, location ≠ documentsLocation warehouse kind ++ [name]) →
      after.entryAt? location = fs.entryAt? location
  workingDir : after.workingDir = fs.workingDir

/-- Writing the documents of a table does what is told by the directory of the documents and its
entries. Nothing else differs. -/
theorem writeSlots_eq {result : Except Failure WrittenFiles} {stamp : Stamp}
    (hNamed : IsNamedBy documents stamp)
    (hReaches : Reaches fs tableDir links (tableLocation warehouse kind))
    (hDir : fs.entryAt? (tableLocation warehouse kind) = some .dir)
    (hPointers : OnlyPointers fs (documentsLocation warehouse kind))
    (hRun : writeDocuments tableDir documents fs = (result, after)) :
    writeSlots tableDir documents (fs.entryAt? (documentsLocation warehouse kind))
        (slotsAt fs (documentsLocation warehouse kind)) =
      (result, after.entryAt? (documentsLocation warehouse kind),
        slotsAt after (documentsLocation warehouse kind)) ∧
    ChangesDocuments warehouse kind fs after := by
  have hFits := Table.fits_directoryName.mono (show 8 ≤ maxName by decide)
  have hMakes : (∃ fault, dirAfter (tableDir.child directoryName)
      (fs.entryAt? (documentsLocation warehouse kind)) = .error fault ∧ _) ∨ ∃ made,
      dirAfter (tableDir.child directoryName)
        (fs.entryAt? (documentsLocation warehouse kind)) = .ok () ∧
      fs.makeDirAll (tableDir.child directoryName) = (made, .ok ()) ∧
      made.entryAt? (documentsLocation warehouse kind) = some .dir ∧ _ :=
    makeDirAll_eq_dirAfter hReaches hDir hFits hPointers.no_link_documents
  rw [writeDocuments_eq_putEntries] at hRun
  rw [writeSlots]
  rcases hMakes with ⟨fault, hAfter, hMake⟩ | ⟨made, hAfter, hMake, hMade, hOthers, hWorkingDir⟩
  · have hFailed : Activity.makeDirAll (tableDir.child directoryName) fs =
        (.error (.io (tableDir.child directoryName) fault), fs) := by
      rw [Activity.makeDirAll_apply, show fs.makeDirAll (tableDir.child directoryName) = _ from hMake]
      rfl
    cases hRun.symm.trans (Activity.bind_of_error hFailed)
    rw [hAfter]
    exact ⟨rfl, fun _ _ _ => rfl, rfl⟩
  · have hDone : Activity.makeDirAll (tableDir.child directoryName) fs = (.ok (), made) :=
      Activity.makeDirAll_of_ok hMake
    rw [Activity.bind_of_ok hDone] at hRun
    obtain ⟨-, hHost⟩ : Frames warehouse (fun _ => stamp) [kind] fs made ∧ _ :=
      frames_of_directory hReaches hDir hPointers hDone
    have hSlots : slotsAt made (documentsLocation warehouse kind) =
        slotsAt fs (documentsLocation warehouse kind) :=
      funext fun name => hOthers _ (by simp [documentsLocation])
    obtain ⟨put, hPut⟩ : ∃ put, putEntries (tableDir.child directoryName) (filesOf documents) made =
        (put, after) := by
      rcases Activity.bind_eq hRun with ⟨failure, hPut, -⟩ | ⟨value, last, hPut, hReturn⟩
      · exact ⟨_, hPut⟩
      · cases hReturn
        exact ⟨_, hPut⟩
    obtain ⟨hPutSlots, hChanges⟩ :
        putSlots (tableDir.child directoryName) (filesOf documents)
            (slotsAt made (documentsLocation warehouse kind)) =
          (put, slotsAt after (documentsLocation warehouse kind)) ∧
        ChangesSlots (documentsLocation warehouse kind) made after :=
      (hHost rfl).putSlots_eq (.inr ⟨_, _, rfl⟩)
        (fun _ hFile => isTidyEntry_of_mem_filesOf hNamed hFile) hPut
    have hStillDir := (hChanges.entry (documentsLocation warehouse kind) fun name hEq =>
      by simp at hEq).trans hMade
    have hResult : result = put.map fun _ => WrittenFiles.ofTable tableDir documents := by
      rw [Activity.bind_apply, hPut] at hRun
      cases put with
      | error failure => exact (Prod.mk.inj hRun).1.symm
      | ok value => exact (Prod.mk.inj hRun).1.symm
    constructor
    · rw [hAfter, ← hSlots, hPutSlots, hStillDir, hResult]
    · refine ⟨fun location hNe hBelow => ?_, hChanges.workingDir.trans hWorkingDir⟩
      rw [hChanges.entry location hBelow, hOthers location hNe]

end Warehouse

end ExportKit
