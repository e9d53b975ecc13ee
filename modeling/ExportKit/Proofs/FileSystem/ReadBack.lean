import ExportKit.Proofs.FileSystem.Changes

/-!
What is written through a path is read back through the same path, whatever links the path follows.
Main statement: `fileContent_of_putFile`.
-/
namespace ExportKit.FileSystem

open ExportKit.Path (dot)

variable {fs fs' : FileSystem} {path : Path} {links : Nat} {location : Location}
  {trail trail' : Trail} {name : Name} {names : List Name} {slash : Bool} {spot : Spot}
  {content : List UInt8}

/-- What lies above an entry that is not a link is not a link either. -/
theorem ne_link_dropLast (hTrail : Trail.to? fs.root location = some trail)
    (hLink : ∀ target, fs.entryAt? location ≠ some (.link target)) (target : Path) :
    fs.entryAt? location.dropLast ≠ some (.link target) := by
  rcases List.eq_nil_or_concat location with rfl | ⟨dir, name, rfl⟩
  · exact hLink target
  · rw [List.concat_eq_append] at hTrail ⊢
    have hDir : fs.entryAt? dir = some .dir :=
      entryAt?_of_append (List.cons_ne_nil name []) (by simp [entryAt?_of_to? hTrail])
    rw [List.dropLast_concat, hDir]
    simp

/-- A walk finds a file that it starts at. -/
theorem walk_nil_file (hTrail : Trail.to? fs.root location = some trail)
    (hFile : fs.entryAt? location = some (.file content)) :
    walk fs.root .follow links trail [] slash = .ok ⟨location, some (.file content), slash⟩ := by
  rw [entryAt?_of_to? hTrail, Option.some_inj] at hFile
  have hNode : trail.node fs.root = .file content := Node.eq_of_entry hFile Bool.false_ne_true
  rw [walk, hNode, (Trail.node_of_to? hTrail).1]

/-- A walk finds a file that is the next entry. -/
theorem walk_file (hTrail : Trail.to? fs.root location = some trail)
    (hDir : (trail.node fs.root).isDir) (hDot : name ≠ [dot]) (hDots : name ≠ [dot, dot])
    (hLength : name.length ≤ maxName)
    (hFile : fs.entryAt? (location ++ [name]) = some (.file content)) :
    walk fs.root .follow links trail [name] false =
      .ok ⟨location ++ [name], some (.file content), false⟩ := by
  rw [entryAt?_child hTrail, Option.map_eq_some_iff] at hFile
  obtain ⟨child, hChild, hEntry⟩ := hFile
  obtain rfl : child = .file content := Node.eq_of_entry hEntry Bool.false_ne_true
  rw [walk_follow_cons [] hDir hDot hDots, if_neg (Nat.not_lt.mpr hLength), hChild,
    (Trail.node_of_to? hTrail).1]
  simp [arrive]

/-- Where another entry is changed, a trail to a directory still ends at one. -/
theorem Alters.isDir_node {other : Location} (h : Alters other fs fs')
    (hTrail : Trail.to? fs.root location = some trail)
    (hTrail' : Trail.to? fs'.root location = some trail') (hDir : (trail.node fs.root).isDir) :
    (trail'.node fs'.root).isDir := by
  have hEntry : fs.entryAt? location = some .dir := by
    rw [entryAt?_of_to? hTrail, (Node.entry_eq_dir_iff _).mpr hDir]
  apply isDir_of_to? hTrail'
  rw [h.entry location fun hEq => h.before (hEq ▸ hEntry), hEntry]

/-- A walk to a place for a file, taken again once the file is there, ends at the file. It comes by
the same directories and links, for none of them is where the file is put. -/
theorem walk_follow_of_create (hTrail : Trail.to? fs.root location = some trail)
    (hTrail' : Trail.to? fs'.root location = some trail')
    (hStart : ∀ target, fs.entryAt? location ≠ some (.link target))
    (hAlters : Alters spot.location fs fs')
    (hFile : fs'.entryAt? spot.location = some (.file content))
    (h : walk fs.root .create links trail names slash = .ok spot) :
    (∀ target, fs.entryAt? spot.location ≠ some (.link target)) ∧
      ∃ slash', walk fs'.root .follow links trail' names slash =
        .ok ⟨spot.location, some (.file content), slash'⟩ := by
  fun_induction walk fs.root .create links trail names slash generalizing location trail'
  case case1 =>
    obtain ⟨hLocation, -⟩ := Trail.node_of_to? hTrail
    cases h
    rw [hLocation] at hFile ⊢
    exact ⟨hStart, _, walk_nil_file hTrail' hFile⟩
  -- Refused: not in a directory, a slash after a new name, a name that is too long, nothing to go
  -- on from, too many links.
  case case2 | case5 | case6 | case8 | case10 => cases h
  case case3 hDir ih =>
    have hDir' := hAlters.isDir_node hTrail hTrail' (by simpa using hDir)
    rw [walk]
    simpa [hDir'] using ih hTrail hTrail' hStart h
  case case4 hDir _ ih =>
    have hDir' := hAlters.isDir_node hTrail hTrail' (by simpa using hDir)
    rw [walk]
    simpa [hDir'] using ih (Trail.to?_dropLast hTrail) (Trail.to?_dropLast hTrail')
      (ne_link_dropLast hTrail hStart) h
  case case7 name hDir hDot hDots hLength hChild hSlash =>
    obtain ⟨rfl, -⟩ := Trail.node_of_to? hTrail
    have hDir' := hAlters.isDir_node hTrail hTrail' (by simpa using hDir)
    obtain rfl : _ = false := by simpa using hSlash
    cases h
    refine ⟨fun target => ?_, false, walk_file hTrail' hDir' hDot hDots (Nat.not_lt.mp hLength) hFile⟩
    rw [entryAt?_child hTrail, hChild]
    simp
  -- A last name that is a link is followed here.
  case case9 hLast => simp at hLast
  case case11 name rest hDir hDot hDots _ hLength target hChild _ links ih =>
    have hDir' := hAlters.isDir_node hTrail hTrail' (by simpa using hDir)
    have hTarget : ∀ other, fs.entryAt? (if target.isAbsolute then [] else location) ≠
        some (.link other) := by
      split
      · simp [entryAt?, at?, Node.at?, root, Node.entry]
      · exact hStart
    obtain ⟨hLink, slash', hWalk⟩ := ih (Trail.to?_target hTrail target)
      (Trail.to?_target hTrail' target) hTarget h
    have hFound : fs.entryAt? (location ++ [name]) = some (.link target) := by
      rw [entryAt?_child hTrail, hChild]
      rfl
    have hOther : location ++ [name] ≠ spot.location := fun hEq => hLink target (hEq ▸ hFound)
    rw [← hAlters.entry _ hOther, entryAt?_child hTrail', Option.map_eq_some_iff] at hFound
    obtain ⟨child, hChild', hEntry⟩ := hFound
    obtain rfl : child = .link target := Node.eq_of_entry hEntry Bool.false_ne_true
    refine ⟨hLink, slash', ?_⟩
    rw [walk_follow_cons rest hDir' hDot hDots, if_neg hLength, hChild']
    exact hWalk
  case case12 name hDir hDot hDots hLength node hLink hChild hSlash =>
    obtain ⟨rfl, -⟩ := Trail.node_of_to? hTrail
    have hDir' := hAlters.isDir_node hTrail hTrail' (by simpa using hDir)
    obtain rfl : _ = false := by simpa using hSlash
    obtain rfl := eq_of_arrive h
    refine ⟨fun target => ?_, false,
      walk_file hTrail' hDir' hDot hDots (Nat.not_lt.mp hLength) hFile⟩
    rw [entryAt?_child hTrail, hChild, Option.map_some, ne_eq, Option.some_inj]
    exact fun hEntry => hLink target (Node.eq_of_entry hEntry Bool.false_ne_true)
  case case13 name rest hDir hDot hDots _ hLength node hLink hChild hRest ih =>
    have hDir' := hAlters.isDir_node hTrail hTrail' (by simpa using hDir)
    have hNode : node.isDir := by
      obtain ⟨next, rest, rfl⟩ := List.exists_cons_of_ne_nil hRest
      exact isDir_of_walk_cons h
    have hFound : fs.entryAt? (location ++ [name]) = some .dir := by
      rw [entryAt?_child hTrail, hChild, Option.map_some, (Node.entry_eq_dir_iff node).mpr hNode]
    have hOther : location ++ [name] ≠ spot.location := fun hEq => hAlters.before (hEq ▸ hFound)
    have hStart' : ∀ target, fs.entryAt? (location ++ [name]) ≠ some (.link target) := by
      simp [hFound]
    rw [← hAlters.entry _ hOther, entryAt?_child hTrail', Option.map_eq_some_iff] at hFound
    obtain ⟨child, hChild', hEntry⟩ := hFound
    obtain ⟨entries, rfl⟩ : ∃ entries, child = .dir entries := by
      cases child with
      | dir entries => exact ⟨entries, rfl⟩
      | file | link | device => cases hEntry
    obtain ⟨hLink, slash', hWalk⟩ := ih (Trail.to?_of_child? hTrail hChild)
      (Trail.to?_of_child? hTrail' hChild') hStart' h
    refine ⟨hLink, slash', ?_⟩
    rw [walk_follow_cons rest hDir' hDot hDots, if_neg hLength, hChild']
    simpa [hRest] using hWalk

/-- A walk that found the place for a file finds the file there once it is written. -/
theorem walkFrom_follow_of_create (hAlters : Alters spot.location fs fs')
    (hFile : fs'.entryAt? spot.location = some (.file content))
    (h : walkFrom fs.root .create location names slash = .ok spot) :
    ∃ slash', walkFrom fs'.root .follow location names slash =
      .ok ⟨spot.location, some (.file content), slash'⟩ := by
  obtain ⟨trail, hTrail, hDir, hWalk⟩ := exists_walk_of_walkFrom h
  have hEntry : fs.entryAt? location = some .dir := by
    rw [entryAt?_of_to? hTrail, (Node.entry_eq_dir_iff _).mpr hDir]
  have hEntry' : fs'.entryAt? location = some .dir := by
    rw [hAlters.entry location fun hEq => hAlters.before (hEq ▸ hEntry), hEntry]
  obtain ⟨_, hNode, -⟩ := Option.map_eq_some_iff.mp hEntry'
  obtain ⟨trail', hTrail', -⟩ := Trail.exists_to? hNode
  rw [walkFrom_of_isDir hTrail' (isDir_of_to? hTrail' hEntry')]
  exact (walk_follow_of_create hTrail hTrail' (by simp [hEntry]) hAlters hFile hWalk).2

/-- Something is written only where there is no directory. -/
theorem not_isDir_of_putFile (h : fs.putFile path content = .ok fs')
    (hResolve : fs.resolve .create path = .ok spot) {node : Node} (hNode : spot.node? = some node) :
    ¬node.isDir := by
  obtain ⟨_, hSpot, h⟩ := bind_eq_ok.mp h
  obtain rfl := Except.ok.inj (hSpot.symm.trans hResolve)
  rw [hNode] at h
  cases node with
  | dir entries => cases h
  | file | link | device => simp [Node.isDir]

/-- What is written through a path into a file is read back through it. -/
theorem fileContent_of_putFile (h : fs.putFile path content = .ok fs')
    (hResolve : fs.resolve .create path = .ok spot) (hAlters : Alters spot.location fs fs')
    (hFile : fs'.entryAt? spot.location = some (.file content)) :
    fs'.fileContent path = .ok content := by
  obtain ⟨start, names, hStart, hWalk⟩ | hRemoved := walkFrom_of_resolve hResolve
  · have hStart' : fs'.start? path = some (start, names) := by
      rw [start?, hAlters.workingDir]
      exact hStart
    obtain ⟨slash, hWalk'⟩ := walkFrom_follow_of_create hAlters hFile hWalk
    rw [← resolve_of_start? (accepts_of_resolve hResolve) hStart'] at hWalk'
    rw [fileContent, status, hWalk']
    rfl
  · exact absurd rfl (not_isDir_of_putFile h hResolve hRemoved)

/-! Whether something can be written. -/

/-- Whether a byte can be written where a path leads. -/
def canWrite (fs : FileSystem) (path : Path) : Bool := (fs.putFile path [0]).isOk

/-- Whether what is written through a path is taken by a device. -/
def leadsToDevice (fs : FileSystem) (path : Path) : Bool :=
  match fs.resolve .create path with
  | .ok spot =>
    match spot.node? with
    | some (.device _) => true
    | _ => false
  | .error _ => false

/-- Whether something can be written does not depend on what it is, unless it is nothing. -/
theorem isOk_putFile (h : content ≠ []) : (fs.putFile path content).isOk = fs.canWrite path := by
  rw [canWrite, putFile, putFile]
  cases fs.resolve .create path with
  | error fault => rfl
  | ok spot =>
      obtain ⟨location, node?, slash⟩ := spot
      rcases node? with _ | (_ | _ | _ | device)
      case some.device =>
        cases device with
        | full =>
            change (Except.isOk (if content = [] then _ else _)) = _
            rw [if_neg h]
            rfl
        | null | output | terminal => rfl
      all_goals rfl

/-- Where writing is possible, it succeeds for every content. -/
theorem exists_putFile (hContent : content ≠ []) (h : fs.canWrite path) :
    ∃ changed, fs.putFile path content = .ok changed := by
  rw [← isOk_putFile hContent] at h
  cases hPut : fs.putFile path content with
  | ok changed => exact ⟨changed, rfl⟩
  | error fault =>
      rw [hPut] at h
      cases h

/-- Where writing is not possible, it fails for every content but the empty one. -/
theorem exists_fault (hContent : content ≠ []) (h : ¬fs.canWrite path) :
    ∃ fault, fs.putFile path content = .error fault := by
  rw [← isOk_putFile hContent] at h
  cases hPut : fs.putFile path content with
  | ok changed =>
      rw [hPut] at h
      exact absurd rfl h
  | error fault => exact ⟨fault, rfl⟩

/-- What a device takes leaves no trace in the tree. -/
theorem eq_of_putFile_device (h : fs.putFile path content = .ok fs')
    (hDevice : fs.leadsToDevice path) :
    fs'.rootEntries = fs.rootEntries ∧ fs'.workingDir = fs.workingDir := by
  obtain ⟨⟨location, node?, slash⟩, hResolve, h⟩ := bind_eq_ok.mp h
  rw [leadsToDevice, hResolve] at hDevice
  rcases node? with _ | (_ | _ | _ | device)
  case some.device => exact rootEntries_of_put h
  all_goals cases hDevice

/-- What no device takes is the content of a file, to which the path leads from then on. -/
theorem putFile_eq_ok_of_not_device (h : fs.putFile path content = .ok fs')
    (hDevice : ¬fs.leadsToDevice path) :
    ∃ spot, fs.resolve .create path = .ok spot ∧ Alters spot.location fs fs' ∧
      fs'.entryAt? spot.location = some (.file content) ∧ fs'.fileContent path = .ok content := by
  obtain ⟨spot, hResolve, hAlters, hFile | ⟨device, hEntry, -⟩⟩ := putFile_eq_ok h
  · exact ⟨spot, hResolve, hAlters, hFile, fileContent_of_putFile h hResolve hAlters hFile⟩
  · obtain ⟨hNode, -⟩ :=
      exists_dir_of_resolve hResolve fun _ => not_isDir_of_putFile h hResolve
    rw [entryAt?_of_at? hNode, Option.map_eq_some_iff] at hEntry
    obtain ⟨node, hNode, hEntry⟩ := hEntry
    obtain rfl : node = .device device := Node.eq_of_entry hEntry Bool.false_ne_true
    rw [leadsToDevice, hResolve] at hDevice
    simp [hNode] at hDevice

end ExportKit.FileSystem
