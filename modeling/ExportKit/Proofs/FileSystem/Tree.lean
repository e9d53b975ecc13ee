import ExportKit.FileSystem.Basic

/-!
What a change to one entry of a file system leaves as it was: everything that does not lie at the
location of the entry or below it.
-/
namespace ExportKit

namespace Node

theorem lookup_setEntry_self (name : Name) (node : Node) (entries : List (Name × Node)) :
    (setEntry name node entries).lookup name = some node := by
  induction entries with
  | nil => simp [setEntry]
  | cons entry rest ih =>
      by_cases h : entry.1 = name
      · simp [setEntry, h]
      · have hNe : (name == entry.1) = false := by simpa using Ne.symm h
        obtain ⟨other, child⟩ := entry
        rw [setEntry, if_neg h, List.lookup_cons, hNe]
        exact ih

theorem lookup_setEntry_of_ne {name other : Name} (h : other ≠ name) (node : Node)
    (entries : List (Name × Node)) :
    (setEntry name node entries).lookup other = entries.lookup other := by
  have hNe : (other == name) = false := by simpa using h
  induction entries with
  | nil => simp [setEntry, List.lookup_cons, hNe]
  | cons entry rest ih =>
      obtain ⟨first, child⟩ := entry
      by_cases hFirst : first = name
      · simp [setEntry, hFirst, List.lookup_cons, hNe]
      · rw [setEntry, if_neg hFirst, List.lookup_cons, List.lookup_cons, ih]

theorem lookup_filter_self (name : Name) (entries : List (Name × Node)) :
    (entries.filter fun entry => entry.1 ≠ name).lookup name = none := by
  rw [List.lookup_eq_none_iff]
  intro entry hEntry
  have hNe : entry.1 ≠ name := by simpa using (List.mem_filter.mp hEntry).2
  simpa using Ne.symm hNe

theorem lookup_filter_of_ne {name other : Name} (h : other ≠ name)
    (entries : List (Name × Node)) :
    (entries.filter fun entry => entry.1 ≠ name).lookup other = entries.lookup other := by
  induction entries with
  | nil => rfl
  | cons entry rest ih =>
      obtain ⟨first, child⟩ := entry
      by_cases hFirst : first = name
      · have hNe : (other == first) = false := by simpa [hFirst] using h
        rw [List.filter_cons_of_neg (by simpa using hFirst), ih, List.lookup_cons, hNe]
      · rw [List.filter_cons_of_pos (by simpa using hFirst), List.lookup_cons, List.lookup_cons, ih]

@[simp] theorem isDir_setChild (node : Node) (name : Name) (child : Node) :
    (node.setChild name child).isDir = node.isDir := by
  cases node <;> rfl

@[simp] theorem isDir_eraseChild (node : Node) (name : Name) :
    (node.eraseChild name).isDir = node.isDir := by
  cases node <;> rfl

@[simp] theorem isDir_emptied (node : Node) : node.emptied.isDir = node.isDir := by
  cases node <;> rfl

@[simp] theorem entry_setChild (node : Node) (name : Name) (child : Node) :
    (node.setChild name child).entry = node.entry := by
  cases node <;> rfl

@[simp] theorem entry_eq_dir_iff (node : Node) : node.entry = .dir ↔ node.isDir := by
  cases node <;> simp [entry, isDir]

/-- A node that is no directory is nothing but its entry. -/
theorem eq_of_entry {node other : Node} (h : node.entry = other.entry) (hDir : ¬other.isDir) :
    node = other := by
  cases other with
  | dir entries => exact absurd rfl hDir
  | file | link | device => cases node <;> simp_all [entry]

theorem child?_setChild_self {node : Node} (h : node.isDir) (name : Name) (child : Node) :
    (node.setChild name child).child? name = some child := by
  cases node with
  | dir entries => exact lookup_setEntry_self name child entries
  | file | link | device => simp [isDir] at h

theorem child?_setChild_of_ne {name other : Name} (h : other ≠ name) (node child : Node) :
    (node.setChild name child).child? other = node.child? other := by
  cases node with
  | dir entries => exact lookup_setEntry_of_ne h child entries
  | file | link | device => rfl

theorem child?_eraseChild_self (node : Node) (name : Name) :
    (node.eraseChild name).child? name = none := by
  cases node with
  | dir entries => exact lookup_filter_self name entries
  | file | link | device => rfl

theorem child?_eraseChild_of_ne {name other : Name} (h : other ≠ name) (node : Node) :
    (node.eraseChild name).child? other = node.child? other := by
  cases node with
  | dir entries => exact lookup_filter_of_ne h entries
  | file | link | device => rfl

theorem isDir_of_child? {node child : Node} {name : Name} (h : node.child? name = some child) :
    node.isDir := by
  cases node with
  | dir entries => rfl
  | file | link | device => simp [child?, entries] at h

/-- What is found under a name in a directory is one of its entries. -/
theorem mem_of_child? {entries : List (Name × Node)} {name : Name} {child : Node}
    (h : (Node.dir entries).child? name = some child) : (name, child) ∈ entries := by
  obtain ⟨before, after, hEntries, -⟩ := List.lookup_eq_some_iff.mp h
  rw [Node.entries] at hEntries
  simp [hEntries]

/-- What stands at a location of two parts stands at the second part below the first. -/
theorem at?_append (node : Node) (above below : Location) :
    node.at? (above ++ below) = (node.at? above).bind (·.at? below) := by
  induction above generalizing node with
  | nil => rfl
  | cons name above ih =>
      rw [List.cons_append, at?, at?]
      cases node.child? name with
      | none => rfl
      | some child => exact ih child

theorem at?_concat (node : Node) (location : Location) (name : Name) :
    node.at? (location ++ [name]) = (node.at? location).bind (·.child? name) := by
  rw [at?_append]
  congr 1
  funext child
  cases h : child.child? name <;> simp [at?, h]

section Change

variable {change : Node → Node}

theorem isDir_modifyAt (hChange : ∀ node, (change node).isDir = node.isDir) (node : Node)
    (location : Location) : (node.modifyAt change location).isDir = node.isDir := by
  cases location with
  | nil => exact hChange node
  | cons name rest =>
      rw [modifyAt]
      cases node.child? name with
      | none => rfl
      | some child => exact isDir_setChild node name _

/-- Below the location of a change stands what the changed node holds. -/
theorem at?_modifyAt_append {node target : Node} {location : Location}
    (h : node.at? location = some target) (below : Location) :
    (node.modifyAt change location).at? (location ++ below) = (change target).at? below := by
  induction location generalizing node with
  | nil =>
      obtain rfl : node = target := by simpa [at?] using h
      rfl
  | cons name rest ih =>
      rw [at?, Option.bind_eq_some_iff] at h
      obtain ⟨child, hChild, hTarget⟩ := h
      have hDir := isDir_of_child? hChild
      rw [modifyAt, hChild, List.cons_append, at?, child?_setChild_self hDir]
      exact ih hTarget

/-- A change is not seen anywhere but at its location and below. -/
theorem entry_at?_modifyAt {location other : Location} (h : ¬location <+: other) (node : Node) :
    ((node.modifyAt change location).at? other).map entry = (node.at? other).map entry := by
  induction location generalizing node other with
  | nil => exact absurd List.nil_prefix h
  | cons name rest ih =>
      rw [modifyAt]
      cases hChild : node.child? name with
      | none => rfl
      | some child =>
          cases other with
          | nil => simp [at?]
          | cons otherName otherRest =>
              by_cases hName : otherName = name
              · subst hName
                have hRest : ¬rest <+: otherRest := fun hPrefix =>
                  h (List.cons_prefix_cons.mpr ⟨rfl, hPrefix⟩)
                have hDir := isDir_of_child? hChild
                rw [at?, at?, child?_setChild_self hDir, hChild]
                exact ih hRest child
              · rw [at?, at?, child?_setChild_of_ne hName]

end Change

end Node

namespace FileSystem

variable {fs : FileSystem}

/-- The tree after a change of one node is the tree with that node changed. -/
theorem root_modifyAt {change : Node → Node} (hChange : ∀ node, (change node).isDir = node.isDir)
    (fs : FileSystem) (location : Location) :
    (fs.modifyAt change location).root = fs.root.modifyAt change location := by
  have hDir := Node.isDir_modifyAt hChange fs.root location
  rw [modifyAt, root]
  cases hRoot : fs.root.modifyAt change location with
  | dir entries => rfl
  | file | link | device =>
      rw [hRoot] at hDir
      simp [Node.isDir, root] at hDir

/-- An entry exists only within directories. -/
theorem entryAt?_of_append {above below : Location} (hBelow : below ≠ [])
    (h : fs.entryAt? (above ++ below) ≠ none) : fs.entryAt? above = some .dir := by
  obtain ⟨name, rest, rfl⟩ := List.exists_cons_of_ne_nil hBelow
  rw [entryAt?, at?, Node.at?_append] at h
  rw [entryAt?, at?]
  cases hNode : fs.root.at? above with
  | none => simp [hNode] at h
  | some node =>
      cases hChild : node.child? name with
      | none => simp [hNode, Node.at?, hChild] at h
      | some child => simpa using Node.isDir_of_child? hChild

theorem put_concat (fs : FileSystem) (location : Location) (name : Name) (node : Node) :
    fs.put (location ++ [name]) node = fs.modifyAt (·.setChild name node) location := by
  simp [put]

theorem erase_concat (fs : FileSystem) (location : Location) (name : Name) :
    fs.erase (location ++ [name]) = fs.modifyAt (·.eraseChild name) location := by
  simp [erase]

theorem exists_at?_of_entryAt? {location : Location} (h : fs.entryAt? location = some .dir) :
    ∃ node, fs.root.at? location = some node ∧ node.isDir := by
  rw [entryAt?, at?, Option.map_eq_some_iff] at h
  obtain ⟨node, hNode, hEntry⟩ := h
  exact ⟨node, hNode, (Node.entry_eq_dir_iff node).mp hEntry⟩

/-- A change to one entry of a directory is not seen anywhere but at that entry and below. -/
theorem entryAt?_modifyAt_of_not_prefix {change : Node → Node} {dir other : Location} {name : Name}
    (hIsDir : ∀ node, (change node).isDir = node.isDir)
    (hEntry : ∀ node, (change node).entry = node.entry)
    (hChild : ∀ node otherName, otherName ≠ name →
      (change node).child? otherName = node.child? otherName)
    (hDir : fs.entryAt? dir = some .dir) (h : ¬dir ++ [name] <+: other) :
    (fs.modifyAt change dir).entryAt? other = fs.entryAt? other := by
  obtain ⟨node, hNode, -⟩ := exists_at?_of_entryAt? hDir
  rw [entryAt?, at?, root_modifyAt hIsDir, entryAt?, at?]
  by_cases hPrefix : dir <+: other
  · obtain ⟨below, rfl⟩ := hPrefix
    rw [Node.at?_modifyAt_append hNode, Node.at?_append, hNode, Option.bind_some]
    cases below with
    | nil => simp [Node.at?, hEntry]
    | cons first rest =>
        have hFirst : first ≠ name := by
          rintro rfl
          exact h ⟨rest, by simp⟩
        rw [Node.at?, Node.at?, hChild node first hFirst]
  · exact Node.entry_at?_modifyAt hPrefix fs.root

/-- Nothing outside of what is put changes. -/
theorem entryAt?_put_of_not_prefix {dir other : Location} {name : Name}
    (hDir : fs.entryAt? dir = some .dir) (node : Node) (h : ¬dir ++ [name] <+: other) :
    (fs.put (dir ++ [name]) node).entryAt? other = fs.entryAt? other := by
  rw [put_concat]
  exact entryAt?_modifyAt_of_not_prefix (fun _ => Node.isDir_setChild _ _ _)
    (fun _ => Node.entry_setChild _ _ _)
    (fun other _ hName => Node.child?_setChild_of_ne hName other node) hDir h

/-- Nothing outside of what is erased changes. -/
theorem entryAt?_erase_of_not_prefix {dir other : Location} {name : Name}
    (hDir : fs.entryAt? dir = some .dir) (h : ¬dir ++ [name] <+: other) :
    (fs.erase (dir ++ [name])).entryAt? other = fs.entryAt? other := by
  rw [erase_concat]
  exact entryAt?_modifyAt_of_not_prefix (fun _ => Node.isDir_eraseChild _ _)
    (fun node => by cases node <;> rfl)
    (fun other _ hName => Node.child?_eraseChild_of_ne hName other) hDir h

/-- Below a node that was put stands what the node holds. -/
theorem entryAt?_put_append {dir : Location} (hDir : fs.entryAt? dir = some .dir) (name : Name)
    (node : Node) (below : Location) :
    (fs.put (dir ++ [name]) node).entryAt? (dir ++ name :: below) =
      (node.at? below).map Node.entry := by
  obtain ⟨target, hTarget, hIsDir⟩ := exists_at?_of_entryAt? hDir
  rw [put_concat, entryAt?, at?, root_modifyAt fun _ => Node.isDir_setChild _ _ _,
    Node.at?_modifyAt_append hTarget, Node.at?, Node.child?_setChild_self hIsDir, Option.bind_some]

/-- Below an entry that was erased stands nothing. -/
theorem entryAt?_erase_append {dir : Location} (hDir : fs.entryAt? dir = some .dir) (name : Name)
    (below : Location) : (fs.erase (dir ++ [name])).entryAt? (dir ++ name :: below) = none := by
  obtain ⟨target, hTarget, -⟩ := exists_at?_of_entryAt? hDir
  rw [erase_concat, entryAt?, at?, root_modifyAt fun _ => Node.isDir_eraseChild _ _,
    Node.at?_modifyAt_append hTarget, Node.at?, Node.child?_eraseChild_self]
  rfl

/-- Clearing a directory empties its node in the tree. -/
theorem at?_clear (fs : FileSystem) (location other : Location) :
    (fs.clear location).at? other = (fs.root.modifyAt .emptied location).at? other := by
  have hRoot := root_modifyAt Node.isDir_emptied fs location
  rw [at?, ← hRoot, clear]
  split <;> rfl

/-- A directory that was cleared is an empty one. -/
theorem at?_clear_self {location : Location} (h : fs.entryAt? location = some .dir) :
    (fs.clear location).at? location = some (.dir []) := by
  obtain ⟨node, hNode, hIsDir⟩ := exists_at?_of_entryAt? h
  have hCleared : (fs.root.modifyAt .emptied location).at? location = some node.emptied := by
    simpa [Node.at?] using Node.at?_modifyAt_append hNode []
  rw [at?_clear, hCleared]
  cases node with
  | dir entries => rfl
  | file | link | device => cases hIsDir

/-- Nothing outside of what is cleared changes. -/
theorem entryAt?_clear_of_not_prefix {location other : Location} (h : ¬location <+: other) :
    (fs.clear location).entryAt? other = fs.entryAt? other := by
  rw [entryAt?, at?_clear]
  exact Node.entry_at?_modifyAt h fs.root

@[simp] theorem workingDir_put (fs : FileSystem) (location : Location) (node : Node) :
    (fs.put location node).workingDir = fs.workingDir := by
  rw [put]
  split <;> rfl

@[simp] theorem workingDir_erase (fs : FileSystem) (location : Location) :
    (fs.erase location).workingDir = fs.workingDir := by
  rw [erase]
  split <;> rfl

end FileSystem

end ExportKit
