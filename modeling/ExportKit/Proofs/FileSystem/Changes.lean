import ExportKit.Proofs.FileSystem.Effects

/-!
What operations that succeed change, wherever their paths lead: files are written, removed and
linked at one location, and making directories keeps all that was there.
-/
namespace ExportKit.FileSystem

open ExportKit.Path (dot)

variable {fs fs' fs'' : FileSystem} {ending : Ending} {path : Path} {links : Nat}
  {location : Location}

/-! Where walks end. -/

/-- A walk ends at the node of a location, or where one could be put into a directory. -/
structure IsSpot (fs : FileSystem) (spot : Spot) : Prop where
  node_eq : spot.node? = fs.at? spot.location
  dir_of_none : spot.node? = none →
    ∃ dir name, spot.location = dir ++ [name] ∧ fs.entryAt? dir = some .dir

theorem isSpot_child {trail : Trail} {name : Name} {node : Node} (slash : Bool)
    (hTrail : Trail.to? fs.root location = some trail)
    (hChild : (trail.node fs.root).child? name = some node) :
    IsSpot fs ⟨trail.location ++ [name], some node, slash⟩ := by
  obtain ⟨rfl, -⟩ := Trail.node_of_to? hTrail
  refine ⟨?_, fun hNone => by cases hNone⟩
  rw [FileSystem.at?, ← Trail.child?_node hTrail, hChild]

/-- A walk ends at a spot. -/
theorem isSpot_of_walk {trail : Trail} {names : List Name} {slash : Bool} {spot : Spot}
    (hTrail : Trail.to? fs.root location = some trail)
    (h : walk fs.root ending links trail names slash = .ok spot) : IsSpot fs spot := by
  fun_induction walk fs.root ending links trail names slash generalizing location
  case case1 =>
    obtain ⟨rfl, hAt⟩ := Trail.node_of_to? hTrail
    cases h
    exact ⟨hAt.symm, fun hNone => by cases hNone⟩
  -- Refused: not in a directory, a slash after a new name, a name that is too long, nothing to go
  -- on from, too many links.
  case case2 | case5 | case6 | case8 | case10 => cases h
  case case3 ih => exact ih hTrail h
  case case4 ih => exact ih (Trail.to?_dropLast hTrail) h
  case case7 name hDir _ _ _ hChild _ =>
    obtain ⟨rfl, -⟩ := Trail.node_of_to? hTrail
    cases h
    refine ⟨?_, fun _ => ⟨_, name, rfl, ?_⟩⟩
    · rw [FileSystem.at?, ← Trail.child?_node hTrail]
      exact hChild.symm
    · rw [entryAt?_of_to? hTrail, (Node.entry_eq_dir_iff _).mpr (by simpa using hDir)]
  case case9 hChild _ =>
    cases h
    exact isSpot_child _ hTrail hChild
  case case11 target _ _ links ih =>
    by_cases hAbsolute : target.isAbsolute
    · rw [if_pos hAbsolute] at h
      simp only [hAbsolute, dite_true] at ih
      exact ih (show Trail.to? fs.root [] = some _ from rfl) h
    · rw [if_neg hAbsolute] at h
      simp only [hAbsolute] at ih
      exact ih hTrail h
  case case12 hChild _ =>
    rw [eq_of_arrive h]
    exact isSpot_child _ hTrail hChild
  case case13 hChild _ ih => exact ih (Trail.to?_of_child? hTrail hChild) h

theorem isSpot_of_walkFrom {start : Location} {names : List Name} {slash : Bool} {spot : Spot}
    (h : walkFrom fs.root ending start names slash = .ok spot) : IsSpot fs spot := by
  obtain ⟨trail, hTrail, -, hWalk⟩ := exists_walk_of_walkFrom h
  exact isSpot_of_walk hTrail hWalk

/-- A path leads to a spot, or to a working directory that was removed. -/
theorem isSpot_of_resolve {spot : Spot} (h : fs.resolve ending path = .ok spot) :
    IsSpot fs spot ∨ spot.node? = some (.dir []) := by
  rcases walkFrom_of_resolve h with ⟨start, names, -, hWalk⟩ | hRemoved
  · exact .inl (isSpot_of_walkFrom hWalk)
  · exact .inr hRemoved

/-- What is not a directory stands in one, and so does what is not there yet. -/
theorem exists_dir_of_resolve {spot : Spot} (h : fs.resolve ending path = .ok spot)
    (hNode : ∀ node, spot.node? = some node → ¬node.isDir) :
    spot.node? = fs.at? spot.location ∧
      ∃ dir name, spot.location = dir ++ [name] ∧ fs.entryAt? dir = some .dir := by
  rcases isSpot_of_resolve h with hSpot | hRemoved
  · refine ⟨hSpot.node_eq, ?_⟩
    cases hFound : spot.node? with
    | none => exact hSpot.dir_of_none hFound
    | some node =>
        have hAt : fs.at? spot.location = some node := hSpot.node_eq.symm.trans hFound
        rcases List.eq_nil_or_concat spot.location with hRoot | ⟨dir, name, hLocation⟩
        · rw [hRoot] at hAt
          cases hAt
          exact absurd rfl (hNode _ hFound)
        · rw [List.concat_eq_append] at hLocation
          refine ⟨dir, name, hLocation, entryAt?_of_append (List.cons_ne_nil name []) ?_⟩
          rw [← hLocation, entryAt?, hAt]
          simp
  · exact absurd rfl (hNode _ hRemoved)

/-! Changes of one entry. -/

/-- Nothing but the entry at one location differs, which is no directory before or after. -/
structure Alters (location : Location) (fs fs' : FileSystem) : Prop where
  entry : ∀ other, other ≠ location → fs'.entryAt? other = fs.entryAt? other
  before : fs.entryAt? location ≠ some .dir
  after : fs'.entryAt? location ≠ some .dir
  workingDir : fs'.workingDir = fs.workingDir

namespace Alters

theorem changesOnly (h : Alters location fs fs') : ChangesOnly location fs fs' := by
  refine ⟨fun other hOther => h.entry other ?_, h.workingDir⟩
  rintro rfl
  exact hOther (List.prefix_refl _)

/-- Below what is no directory there is nothing. -/
theorem of_changesOnly (h : ChangesOnly location fs fs')
    (hBefore : fs.entryAt? location ≠ some .dir) (hAfter : fs'.entryAt? location ≠ some .dir) :
    Alters location fs fs' := by
  refine ⟨fun other hOther => ?_, hBefore, hAfter, h.workingDir⟩
  by_cases hPrefix : location <+: other
  · obtain ⟨below, rfl⟩ := hPrefix
    have hBelow : below ≠ [] := by
      rintro rfl
      exact hOther (List.append_nil _)
    have hNone {state : FileSystem} (hState : state.entryAt? location ≠ some .dir) :
        state.entryAt? (location ++ below) = none :=
      Classical.byContradiction fun hSome => hState (entryAt?_of_append hBelow hSome)
    rw [hNone hBefore, hNone hAfter]
  · exact h.entry other hPrefix

/-- What is no directory does not become one. -/
theorem ne_dir (h : Alters location fs fs') {other : Location}
    (hOther : fs.entryAt? other ≠ some .dir) : fs'.entryAt? other ≠ some .dir := by
  by_cases hEq : other = location
  · rw [hEq]
    exact h.after
  · rw [h.entry other hEq]
    exact hOther

end Alters

theorem entryAt?_of_at? {node? : Option Node} (h : node? = fs.at? location) :
    fs.entryAt? location = node?.map Node.entry := by
  rw [h, entryAt?]

theorem ne_dir_of_node? {node? : Option Node} (h : node? = fs.at? location)
    (hNode : ∀ node, node? = some node → ¬node.isDir) : fs.entryAt? location ≠ some .dir := by
  rw [entryAt?_of_at? h]
  intro hDir
  obtain ⟨node, hSome, hEntry⟩ := Option.map_eq_some_iff.mp hDir
  exact hNode node hSome ((Node.entry_eq_dir_iff node).mp hEntry)

/-- A node that is no directory is put where there is none. -/
theorem alters_put {spot : Spot} (h : fs.resolve ending path = .ok spot)
    (hNode : ∀ node, spot.node? = some node → ¬node.isDir) {node : Node} (hNew : ¬node.isDir) :
    Alters spot.location fs (fs.put spot.location node) ∧
      (fs.put spot.location node).entryAt? spot.location = some node.entry := by
  obtain ⟨hAt, dir, name, hLocation, hDir⟩ := exists_dir_of_resolve h hNode
  have hBefore := ne_dir_of_node? hAt hNode
  rw [hLocation] at hBefore ⊢
  have hSelf := entryAt?_put_self hDir name node
  refine ⟨.of_changesOnly (changesOnly_put hDir name node) hBefore ?_, hSelf⟩
  rw [hSelf, ne_eq, Option.some_inj, Node.entry_eq_dir_iff]
  exact hNew

/-- The entries of a file system depend on its tree alone. -/
theorem entryAt?_congr (h : fs'.rootEntries = fs.rootEntries) (location : Location) :
    fs'.entryAt? location = fs.entryAt? location := by
  rw [entryAt?, entryAt?, at?, at?, root, root, h]

/-- What is written to a device does not show in the tree. -/
theorem rootEntries_of_put {device : Device} {content : List UInt8}
    (h : device.put fs content = .ok fs') :
    fs'.rootEntries = fs.rootEntries ∧ fs'.workingDir = fs.workingDir := by
  cases device with
  | null =>
      cases h
      exact ⟨rfl, rfl⟩
  | full =>
      rw [Device.put] at h
      split at h
      next =>
        cases h
        exact ⟨rfl, rfl⟩
      next => cases h
  | output =>
      cases h
      exact ⟨rfl, rfl⟩
  | terminal => cases h

/-- A file is written where the path leads, or a device that stands there takes what is written. -/
theorem putFile_eq_ok {content : List UInt8} (h : fs.putFile path content = .ok fs') :
    ∃ spot, fs.resolve .create path = .ok spot ∧ Alters spot.location fs fs' ∧
      (fs'.entryAt? spot.location = some (.file content) ∨
        ∃ device, fs.entryAt? spot.location = some (.device device) ∧
          fs'.entryAt? spot.location = some (.device device)) := by
  obtain ⟨spot, hResolve, h⟩ := bind_eq_ok.mp h
  refine ⟨spot, hResolve, ?_⟩
  split at h
  next => cases h
  next device hNode =>
    obtain ⟨hAt, -⟩ := exists_dir_of_resolve hResolve (by simp [hNode, Node.isDir])
    have hDevice : fs.entryAt? spot.location = some (.device device) := by
      rw [entryAt?_of_at? hAt, hNode]
      rfl
    obtain ⟨hEntries, hWorkingDir⟩ := rootEntries_of_put h
    have hSame := entryAt?_congr hEntries
    refine ⟨⟨fun other _ => hSame other, ?_, ?_, hWorkingDir⟩, .inr ⟨device, hDevice, ?_⟩⟩
    · simp [hDevice]
    · simp [hSame, hDevice]
    · rw [hSame, hDevice]
  next hDir hDevice =>
    cases h
    have hNode : ∀ node, spot.node? = some node → ¬node.isDir := by
      intro node hNode hIsDir
      cases node with
      | dir entries => exact hDir entries hNode
      | file | link | device => cases hIsDir
    have hNew : ¬(Node.file content).isDir := by simp [Node.isDir]
    obtain ⟨hAlters, hEntry⟩ := alters_put hResolve hNode hNew
    exact ⟨hAlters, .inl hEntry⟩

/-- A link is created where the path leads, and there was nothing. -/
theorem makeLink_eq_ok {target : Path} (h : fs.makeLink target path = .ok fs') :
    ∃ spot, fs.resolve .name path = .ok spot ∧ Alters spot.location fs fs' ∧
      fs'.entryAt? spot.location = some (.link target) := by
  rw [makeLink] at h
  split at h
  next => cases h
  next =>
    split at h
    next => cases h
    next =>
      split at h
      next => cases h
      next =>
        obtain ⟨spot, hResolve, h⟩ := bind_eq_ok.mp h
        refine ⟨spot, hResolve, ?_⟩
        split at h
        next => cases h
        next hNode =>
          split at h
          next => cases h
          next =>
            cases h
            exact alters_put hResolve (by simp [hNode]) (by simp [Node.isDir])

/-- What the path names is removed. -/
theorem removeFile_eq_ok (h : fs.removeFile path = .ok fs') :
    ∃ spot, fs.resolve .name path = .ok spot ∧ Alters spot.location fs fs' ∧
      fs'.entryAt? spot.location = none := by
  obtain ⟨spot, hResolve, h⟩ := bind_eq_ok.mp h
  refine ⟨spot, hResolve, ?_⟩
  split at h
  next => cases h
  next => cases h
  next node hDir hNode =>
    split at h
    next => cases h
    next =>
      cases h
      have hNotDir : ∀ other, spot.node? = some other → ¬other.isDir := by
        intro other hOther hIsDir
        obtain rfl := Option.some_inj.mp (hNode.symm.trans hOther)
        cases node with
        | dir entries => exact hDir entries rfl
        | file | link | device => cases hIsDir
      obtain ⟨hAt, dir, name, hLocation, hIsDir⟩ := exists_dir_of_resolve hResolve hNotDir
      have hBefore := ne_dir_of_node? hAt hNotDir
      rw [hLocation] at hBefore ⊢
      have hErased := entryAt?_erase_self hIsDir name
      exact ⟨.of_changesOnly (changesOnly_erase hIsDir name) hBefore (by simp [hErased]), hErased⟩

/-! Making directories. -/

/-- Outside of some locations nothing differs, but that there may be new directories. -/
def Extends (touched : List Location) (fs fs' : FileSystem) : Prop :=
  ∀ location ∉ touched, fs'.entryAt? location = fs.entryAt? location ∨
    fs.entryAt? location = none ∧ fs'.entryAt? location = some .dir

namespace Extends

variable {touched others : List Location}

theorem refl (touched : List Location) (fs : FileSystem) : Extends touched fs fs :=
  fun _ _ => .inl rfl

theorem trans (first : Extends touched fs fs') (second : Extends others fs' fs'') :
    Extends (touched ++ others) fs fs'' := by
  intro location hLocation
  obtain ⟨hTouched, hOthers⟩ := not_or.mp (mt List.mem_append.mpr hLocation)
  rcases first location hTouched, second location hOthers with
    ⟨hFirst | ⟨hNone, hMade⟩, hSecond | ⟨hMissing, hLast⟩⟩
  · exact .inl (hSecond.trans hFirst)
  · exact .inr ⟨hFirst.symm.trans hMissing, hLast⟩
  · exact .inr ⟨hNone, hSecond.trans hMade⟩
  · cases hMade.symm.trans hMissing

/-- An entry outside of the locations that may differ stays. -/
theorem entry (h : Extends touched fs fs') (hLocation : location ∉ touched) {entry : Entry}
    (hEntry : fs.entryAt? location = some entry) : fs'.entryAt? location = some entry := by
  rcases h location hLocation with hSame | ⟨hNone, -⟩
  · exact hSame.trans hEntry
  · cases hNone.symm.trans hEntry

end Extends

/-- To change one entry is to extend the rest. -/
theorem Alters.extends (h : Alters location fs fs') : Extends [location] fs fs' :=
  fun other hOther => .inl (h.entry other (mt List.mem_singleton.mpr hOther))

/-- Making a directory touches nothing that exists. -/
theorem extends_of_makeDir (h : fs.makeDir path = .ok fs') : Extends [] fs fs' := by
  obtain ⟨spot, hResolve, h⟩ := bind_eq_ok.mp h
  split at h
  next => cases h
  next hNode =>
    cases h
    obtain ⟨hAt, dir, name, hLocation, hDir⟩ := exists_dir_of_resolve hResolve (by simp [hNode])
    have hNone : fs.entryAt? spot.location = none := by
      rw [entryAt?_of_at? hAt, hNode, Option.map_none]
    rw [hLocation] at hNone ⊢
    intro other _
    by_cases hOther : other = dir ++ [name]
    · subst hOther
      exact .inr ⟨hNone, entryAt?_put_self hDir name (.dir [])⟩
    · exact .inl (entryAt?_put_emptyDir hDir hNone hOther)

/-- Making directories keeps what is there, also if one of them cannot be made. -/
theorem extends_of_makeDirs (paths : List Path) {result : Except Fault Unit}
    (h : fs.makeDirs paths = (fs', result)) : Extends [] fs fs' := by
  induction paths generalizing fs fs' result with
  | nil =>
      cases h
      exact .refl [] fs
  | cons path parents ih =>
      rw [makeDirs] at h
      split at h
      next made hMade =>
        cases h
        exact extends_of_makeDir hMade
      next =>
        split at h
        next parent hParents =>
          split at h
          next made hMade =>
            cases h
            exact (ih hParents).trans (extends_of_makeDir hMade)
          next =>
            cases h
            exact ih hParents
        next parent fault hParents =>
          cases h
          exact ih hParents
      next =>
        cases h
        exact .refl [] fs

/-- Making a directory along with its parents touches nothing that exists, even when it fails
halfway. -/
theorem extends_of_makeDirAll {result : Except Fault Unit}
    (h : fs.makeDirAll path = (fs', result)) : Extends [] fs fs' := by
  rw [makeDirAll] at h
  split at h
  next =>
    cases h
    exact .refl [] fs
  next => exact extends_of_makeDirs _ h

end ExportKit.FileSystem
