import ExportKit.Proofs.FileSystem.Reach

/-!
What operations on an entry of a directory do, when the path of the directory reaches it: they
change that entry and nothing else, and the paths to directories lead where they led.
-/
namespace ExportKit.FileSystem

open ExportKit.Path (dot)

variable {fs fs' fs'' : FileSystem} {ending : Ending} {path : Path} {name : Name} {links : Nat}
  {dir location : Location}

/-- No directory lies below one of its entries. -/
theorem not_concat_prefix : ¬dir ++ [name] <+: dir := by
  intro hPrefix
  have hLength := hPrefix.length_le
  rw [List.length_append, List.length_singleton] at hLength
  omega

/-- Nothing but what is at a location or below it differs. -/
structure ChangesOnly (location : Location) (fs fs' : FileSystem) : Prop where
  entry : ∀ other, ¬location <+: other → fs'.entryAt? other = fs.entryAt? other
  workingDir : fs'.workingDir = fs.workingDir

namespace ChangesOnly

theorem refl (location : Location) (fs : FileSystem) : ChangesOnly location fs fs :=
  ⟨fun _ _ => rfl, rfl⟩

theorem trans (first : ChangesOnly location fs fs') (second : ChangesOnly location fs' fs'') :
    ChangesOnly location fs fs'' := by
  refine ⟨fun other hOther => ?_, second.workingDir.trans first.workingDir⟩
  rw [second.entry other hOther, first.entry other hOther]

/-- What changes only below a part of a location changes only below the location. -/
theorem of_append {below : Location} (h : ChangesOnly (location ++ below) fs fs') :
    ChangesOnly location fs fs' := by
  refine ⟨fun other hOther => h.entry other fun hPrefix => hOther ?_, h.workingDir⟩
  exact (List.prefix_append location below).trans hPrefix

/-- A directory stays one when something in it changes. -/
theorem entry_dir (h : ChangesOnly (dir ++ [name]) fs fs') :
    fs'.entryAt? dir = fs.entryAt? dir :=
  h.entry dir not_concat_prefix

/-- The other entries of a directory stay as they are. -/
theorem entry_of_ne {other : Name} (h : ChangesOnly (dir ++ [name]) fs fs') (hName : other ≠ name) :
    fs'.entryAt? (dir ++ [other]) = fs.entryAt? (dir ++ [other]) := by
  apply h.entry
  intro hPrefix
  have hEq := List.append_cancel_left (hPrefix.eq_of_length (by simp))
  exact hName (List.cons.inj hEq).1.symm

end ChangesOnly

/-- Each path to a directory leads there also afterwards. -/
def KeepsPaths (fs fs' : FileSystem) : Prop :=
  ∀ path links location, Reaches fs path links location → fs.entryAt? location = some .dir →
    Reaches fs' path links location ∧ fs'.entryAt? location = some .dir

namespace KeepsPaths

theorem refl (fs : FileSystem) : KeepsPaths fs fs := fun _ _ _ hReaches hDir => ⟨hReaches, hDir⟩

theorem trans (first : KeepsPaths fs fs') (second : KeepsPaths fs' fs'') : KeepsPaths fs fs'' := by
  intro path links location hReaches hDir
  obtain ⟨hMiddle, hMiddleDir⟩ := first path links location hReaches hDir
  exact second path links location hMiddle hMiddleDir

/-- Paths to directories do not depend on an entry that is no directory, and is no link either or
one that leads nowhere on. -/
theorem of_changesOnly (h : ChangesOnly location fs fs')
    (hDir : fs.entryAt? location ≠ some .dir)
    (hLink : ∀ dir name target, location = dir ++ [name] →
      fs.entryAt? location = some (.link target) → IsDeadEnd fs dir target) :
    KeepsPaths fs fs' := by
  have hEntry (other : Location) (hOther : location <+: other) (hNe : other ≠ location) :
      fs.entryAt? other = none := by
    obtain ⟨below, rfl⟩ := hOther
    apply Classical.byContradiction
    intro hSome
    exact hDir (entryAt?_of_append (by simpa using hNe) hSome)
  have hKeeps : KeepsDirs fs fs' := by
    refine ⟨fun other hOther => ?_, fun dir name target hTarget => ?_⟩
    · by_cases hPrefix : location <+: other
      · by_cases hEq : other = location
        · exact absurd (hEq ▸ hOther) hDir
        · simp [hEntry other hPrefix hEq] at hOther
      · rw [h.entry other hPrefix, hOther]
    · by_cases hPrefix : location <+: dir ++ [name]
      · by_cases hEq : dir ++ [name] = location
        · exact .inr (hLink dir name target hEq.symm (hEq ▸ hTarget))
        · simp [hEntry _ hPrefix hEq] at hTarget
      · exact .inl (by rw [h.entry _ hPrefix, hTarget])
  intro path links location hReaches hLocation
  exact ⟨hReaches.of_keepsDirs hLocation hKeeps h.workingDir, hKeeps.dir location hLocation⟩

end KeepsPaths

/-! Operations on an entry that a path names within a directory. -/

/-- A path that ends in a name leads to the entry of that name, unless that is a link that is to be
followed. -/
theorem Reaches.resolve_entry (h : Reaches fs path links dir) (hDir : fs.entryAt? dir = some .dir)
    (hName : name.IsProper) (hLength : name.length ≤ maxName)
    (hAccepts : Accepts (path.join ⟨name⟩))
    (hLink : ending = .name ∨ ending = .keep ∨
      ∀ target, fs.entryAt? (dir ++ [name]) ≠ some (.link target)) :
    fs.resolve ending (path.join ⟨name⟩) =
      .ok ⟨dir ++ [name], fs.at? (dir ++ [name]), false⟩ := by
  obtain ⟨trail, hTrail, hResolve⟩ := h.resolve_join hName hAccepts
  have hIsDir := isDir_of_to? hTrail hDir
  have hChild : (trail.node fs.root).child? name = fs.at? (dir ++ [name]) :=
    Trail.child?_node hTrail name
  rw [hResolve, walk, (Trail.node_of_to? hTrail).1, hChild]
  simp only [hIsDir, hName.ne_dot, hName.ne_dots, Nat.not_lt.mpr hLength, Bool.not_true,
    Bool.false_eq_true, if_false, and_false, if_true]
  cases hNode : fs.at? (dir ++ [name]) with
  | none => rfl
  | some node =>
      cases node with
      | link target =>
          have hEnding : ending = .name ∨ ending = .keep := by
            simpa [entryAt?, hNode, Node.entry] using hLink
          simp [hEnding]
      | file content => rfl
      | dir entries => rfl
      | device kind => rfl

theorem changesOnly_put (hDir : fs.entryAt? dir = some .dir) (name : Name) (node : Node) :
    ChangesOnly (dir ++ [name]) fs (fs.put (dir ++ [name]) node) :=
  ⟨fun _ hOther => entryAt?_put_of_not_prefix hDir node hOther, workingDir_put _ _ _⟩

theorem changesOnly_erase (hDir : fs.entryAt? dir = some .dir) (name : Name) :
    ChangesOnly (dir ++ [name]) fs (fs.erase (dir ++ [name])) :=
  ⟨fun _ hOther => entryAt?_erase_of_not_prefix hDir hOther, workingDir_erase _ _⟩

theorem entryAt?_put_self (hDir : fs.entryAt? dir = some .dir) (name : Name) (node : Node) :
    (fs.put (dir ++ [name]) node).entryAt? (dir ++ [name]) = some node.entry :=
  entryAt?_put_append hDir name node []

theorem entryAt?_erase_self (hDir : fs.entryAt? dir = some .dir) (name : Name) :
    (fs.erase (dir ++ [name])).entryAt? (dir ++ [name]) = none :=
  entryAt?_erase_append hDir name []

section Operations

variable (h : Reaches fs path links dir) (hDir : fs.entryAt? dir = some .dir)
  (hName : name.IsProper) (hLength : name.length ≤ maxName)
  (hAccepts : Accepts (path.join ⟨name⟩))

include h hDir hName hLength hAccepts

/-- What an entry is, is seen unless it is a link. -/
theorem status_entry {node : Node} (hNode : fs.at? (dir ++ [name]) = some node)
    (hLink : ∀ target, node.entry ≠ .link target) : fs.status (path.join ⟨name⟩) = .ok node := by
  have hEntry : ∀ target, fs.entryAt? (dir ++ [name]) ≠ some (.link target) := by
    simpa [entryAt?, hNode] using hLink
  rw [status, h.resolve_entry hDir hName hLength hAccepts (.inr (.inr hEntry)), hNode]
  rfl

/-- A file is written where a file or nothing is. -/
theorem putFile_entry (hEntry : ∀ found, fs.entryAt? (dir ++ [name]) = some found →
      ∃ old, found = .file old) (content : List UInt8) :
    fs.putFile (path.join ⟨name⟩) content = .ok (fs.put (dir ++ [name]) (.file content)) := by
  have hLink : ∀ target, fs.entryAt? (dir ++ [name]) ≠ some (.link target) := by
    intro target hTarget
    obtain ⟨old, hOld⟩ := hEntry _ hTarget
    cases hOld
  rw [putFile, h.resolve_entry hDir hName hLength hAccepts (.inr (.inr hLink))]
  cases hNode : fs.at? (dir ++ [name]) with
  | none => rfl
  | some node =>
      obtain ⟨old, hOld⟩ := hEntry node.entry (by rw [entryAt?, hNode, Option.map_some])
      cases node with
      | file content => rfl
      | dir | link | device => cases hOld

/-- Whether there is an entry is seen without following it. -/
theorem isOk_linkStatus : (fs.linkStatus (path.join ⟨name⟩)).isOk ↔
    fs.entryAt? (dir ++ [name]) ≠ none := by
  rw [linkStatus, h.resolve_entry hDir hName hLength hAccepts (.inr (.inl rfl)), entryAt?]
  cases fs.at? (dir ++ [name]) <;> simp [bind, Except.bind, Except.isOk, Except.toBool]

/-- What is no directory is removed. What a link leads to stays. -/
theorem removeFile_entry {found : Entry} (hFound : fs.entryAt? (dir ++ [name]) = some found)
    (hNotDir : found ≠ .dir) :
    fs.removeFile (path.join ⟨name⟩) = .ok (fs.erase (dir ++ [name])) := by
  rw [entryAt?, Option.map_eq_some_iff] at hFound
  obtain ⟨node, hNode, rfl⟩ := hFound
  rw [removeFile, h.resolve_entry hDir hName hLength hAccepts (.inl rfl), hNode]
  cases node with
  | dir entries => exact absurd rfl hNotDir
  | file | link | device => rfl

/-- A directory is not removed as a file is. -/
theorem removeFile_dir (hEntry : fs.entryAt? (dir ++ [name]) = some .dir) :
    fs.removeFile (path.join ⟨name⟩) = .error .isDirectory := by
  obtain ⟨node, hNode, hIsDir⟩ := exists_at?_of_entryAt? hEntry
  change fs.at? (dir ++ [name]) = some node at hNode
  rw [removeFile, h.resolve_entry hDir hName hLength hAccepts (.inl rfl), hNode]
  cases node with
  | dir entries => rfl
  | file | link | device => cases hIsDir

/-- A link is created where nothing is. -/
theorem makeLink_entry (hEntry : fs.entryAt? (dir ++ [name]) = none) {target : Path}
    (hTarget : Accepts target) :
    fs.makeLink target (path.join ⟨name⟩) = .ok (fs.put (dir ++ [name]) (.link target)) := by
  rw [entryAt?, Option.map_eq_none_iff] at hEntry
  have hZero : target.bytes.contains 0 = false := by simpa using hTarget.not_mem_zero
  rw [makeLink, hZero, if_neg (by simp), if_neg hTarget.ne_nil,
    if_neg (Nat.not_lt.mpr hTarget.length_le),
    h.resolve_entry hDir hName hLength hAccepts (.inl rfl), hEntry]
  rfl

/-- No directory is created where something is. -/
theorem makeDir_of_at? {node : Node} (hNode : fs.at? (dir ++ [name]) = some node) :
    fs.makeDir (path.join ⟨name⟩) = .error .alreadyExists := by
  rw [makeDir, h.resolve_entry hDir hName hLength hAccepts (.inl rfl), hNode]
  rfl

/-- A directory is created where nothing is. -/
theorem makeDirAll_entry (hEntry : fs.entryAt? (dir ++ [name]) = none) :
    fs.makeDirAll (path.join ⟨name⟩) = (fs.put (dir ++ [name]) (.dir []), .ok ()) := by
  rw [entryAt?, Option.map_eq_none_iff] at hEntry
  have hMake : fs.makeDir (path.join ⟨name⟩) = .ok (fs.put (dir ++ [name]) (.dir [])) := by
    rw [makeDir, h.resolve_entry hDir hName hLength hAccepts (.inl rfl), hEntry]
    rfl
  rw [makeDirAll, if_neg hAccepts.ne_nil, chain, makeDirs, hMake]

/-- A directory that is there is left alone. -/
theorem makeDirAll_dir (hEntry : fs.entryAt? (dir ++ [name]) = some .dir) :
    fs.makeDirAll (path.join ⟨name⟩) = (fs, .ok ()) := by
  obtain ⟨node, hNode, hIsDir⟩ := exists_at?_of_entryAt? hEntry
  change fs.at? (dir ++ [name]) = some node at hNode
  have hNotLink : ∀ target, node.entry ≠ .link target := by
    rw [(Node.entry_eq_dir_iff node).mpr hIsDir]
    exact fun _ hLink => by cases hLink
  have hMake := makeDir_of_at? h hDir hName hLength hAccepts hNode
  have hStatus : fs.isDir (path.join ⟨name⟩) := by
    rw [isDir, status_entry h hDir hName hLength hAccepts hNode hNotLink]
    exact hIsDir
  rw [makeDirAll, if_neg hAccepts.ne_nil, chain, makeDirs, hMake]
  simp [hStatus]

/-- An empty directory is removed. -/
theorem removeDir_entry (hNode : fs.at? (dir ++ [name]) = some (.dir [])) :
    fs.removeDir (path.join ⟨name⟩) = .ok (fs.eraseDir (dir ++ [name])) := by
  have hLast : (path.join ⟨name⟩).segments.getLast? = some name := by
    rw [Path.segments_join hName, List.getLast?_concat]
  rw [removeDir, h.resolve_entry hDir hName hLength hAccepts (.inl rfl), hNode, hLast]
  simp [bind, Except.bind, hName.ne_dot, hName.ne_dots]

/-- An entry is removed together with all below it, and nothing else changes, as long as the path
to its directory does not lead through what is removed. -/
theorem removeAll_entry (hFound : fs.entryAt? (dir ++ [name]) ≠ none)
    (hOutside : Reaches (fs.clear (dir ++ [name])) path links dir) :
    ∃ after, fs.removeAll (path.join ⟨name⟩) = (after, .ok ()) ∧
      (∀ other, ¬dir ++ [name] <+: other → after.entryAt? other = fs.entryAt? other) ∧
      after.entryAt? (dir ++ [name]) = none := by
  obtain ⟨entry, hEntry⟩ := Option.ne_none_iff_exists'.mp hFound
  obtain ⟨node, hNode, rfl⟩ := Option.map_eq_some_iff.mp hEntry
  rw [removeAll, h.resolve_entry hDir hName hLength hAccepts (.inr (.inl rfl)), hNode]
  cases node with
  | dir entries =>
      have hCleared (other : Location) (hOther : ¬dir ++ [name] <+: other) :
          (fs.clear (dir ++ [name])).entryAt? other = fs.entryAt? other :=
        entryAt?_clear_of_not_prefix hOther
      have hClearedDir : (fs.clear (dir ++ [name])).entryAt? dir = some .dir := by
        rw [hCleared dir not_concat_prefix, hDir]
      have hRemove := removeDir_entry hOutside hClearedDir hName hLength hAccepts
        (at?_clear_self hEntry)
      refine ⟨(fs.clear (dir ++ [name])).eraseDir (dir ++ [name]), ?_, ?_, ?_⟩
      · simp only [hRemove]
      · intro other hOther
        rw [← hCleared other hOther]
        exact entryAt?_erase_of_not_prefix hClearedDir hOther
      · exact entryAt?_erase_self hClearedDir name
  | file | link | device =>
      have hRemove := removeFile_entry h hDir hName hLength hAccepts hEntry (by simp [Node.entry])
      refine ⟨fs.erase (dir ++ [name]), by simp only [hRemove], ?_, entryAt?_erase_self hDir name⟩
      exact fun other hOther => entryAt?_erase_of_not_prefix hDir hOther

end Operations

/-- A path that is not looked at for its length or a zero byte does not count as one that leads
nowhere. -/
theorem resolve_of_not_accepts (fs : FileSystem) (ending : Ending) (hPath : path.bytes ≠ [])
    (h : ¬Accepts path) :
    fs.resolve ending path = .error .zeroByte ∨ fs.resolve ending path = .error .nameTooLong := by
  rw [resolve]
  by_cases hZero : path.bytes.contains 0
  · exact .inl (if_pos hZero)
  · right
    have hLong : maxPath < path.bytes.length := by
      apply Nat.lt_of_not_le
      intro hLength
      exact h ⟨by simpa using hZero, hPath, hLength⟩
    rw [if_neg hZero, if_neg hPath, if_pos hLong]

/-- A directory within one that is there is created if nothing is there, and what is there is left
alone. -/
theorem makeDirAll_cases (h : Reaches fs path links dir) (hDir : fs.entryAt? dir = some .dir)
    (hName : name.IsProper) (hLength : name.length ≤ maxName)
    (hLink : ∀ target, fs.entryAt? (dir ++ [name]) ≠ some (.link target)) :
    (∃ result, fs.makeDirAll (path.join ⟨name⟩) = (fs, result) ∧
        (result = .ok () → fs.entryAt? (dir ++ [name]) = some .dir)) ∨
      fs.entryAt? (dir ++ [name]) = none ∧
        fs.makeDirAll (path.join ⟨name⟩) = (fs.put (dir ++ [name]) (.dir []), .ok ()) := by
  by_cases hAccepts : Accepts (path.join ⟨name⟩)
  · cases hEntry : fs.entryAt? (dir ++ [name]) with
    | none => exact .inr ⟨rfl, makeDirAll_entry h hDir hName hLength hAccepts hEntry⟩
    | some found =>
        left
        obtain ⟨node, hNode, rfl⟩ := Option.map_eq_some_iff.mp hEntry
        have hNotLink : ∀ target, node.entry ≠ .link target := fun target hTarget =>
          hLink target (hEntry.trans (congrArg some hTarget))
        have hMake := makeDir_of_at? h hDir hName hLength hAccepts hNode
        have hIsDir : fs.isDir (path.join ⟨name⟩) = node.isDir := by
          rw [isDir, status_entry h hDir hName hLength hAccepts hNode hNotLink]
        rw [makeDirAll, if_neg hAccepts.ne_nil, chain, makeDirs, hMake]
        refine ⟨_, rfl, fun hResult => ?_⟩
        rw [hIsDir] at hResult
        split at hResult
        next hNodeDir => rw [(Node.entry_eq_dir_iff node).mpr hNodeDir]
        next => cases hResult
  · left
    have hPath := Path.bytes_join_ne_nil hName path
    have hRefused (ending : Ending) := resolve_of_not_accepts fs ending hPath hAccepts
    have hIsDir : fs.isDir (path.join ⟨name⟩) = false := by
      rw [isDir, status]
      rcases hRefused .follow with hResolve | hResolve <;> rw [hResolve] <;> rfl
    rw [makeDirAll, if_neg hPath, chain, makeDirs, makeDir]
    rcases hRefused .name with hResolve | hResolve
    all_goals
      rw [hResolve]
      refine ⟨_, rfl, fun hResult => ?_⟩
      simp [hIsDir] at hResult

/-- An empty directory holds nothing. -/
theorem entryAt?_put_emptyDir (hDir : fs.entryAt? dir = some .dir)
    (hNone : fs.entryAt? (dir ++ [name]) = none) {other : Location} (h : other ≠ dir ++ [name]) :
    (fs.put (dir ++ [name]) (.dir [])).entryAt? other = fs.entryAt? other := by
  by_cases hPrefix : dir ++ [name] <+: other
  · obtain ⟨below, rfl⟩ := hPrefix
    have hBelow : below ≠ [] := by
      rintro rfl
      exact h (List.append_nil _)
    have hBefore : fs.entryAt? (dir ++ [name] ++ below) = none := by
      apply Classical.byContradiction
      intro hSome
      cases hNone.symm.trans (entryAt?_of_append hBelow hSome)
    obtain ⟨first, rest, rfl⟩ := List.exists_cons_of_ne_nil hBelow
    rw [hBefore, List.append_assoc]
    exact entryAt?_put_append hDir name (.dir []) (first :: rest)
  · exact entryAt?_put_of_not_prefix hDir _ hPrefix

end ExportKit.FileSystem
