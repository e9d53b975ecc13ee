import ExportKit.Proofs.FileSystem.Walk
import Mathlib.Data.List.TakeWhile

/-!
What paths lead to. A path that is followed by a name leads where the name leads from the directory
that the path reaches.
-/
namespace ExportKit

/-- A computation of two steps succeeds just if the second succeeds on the result of the first. -/
theorem bind_eq_ok {ε α β : Type} {x : Except ε α} {f : α → Except ε β} {b : β} :
    (x >>= f) = .ok b ↔ ∃ a, x = .ok a ∧ f a = .ok b := by
  cases x <;> simp [bind, Except.bind]

namespace FileSystem

open ExportKit.Path (dot)

/-- The location where a walk along a path starts, and the names to walk along. Where the working
directory was removed, only two dots lead on from it. -/
def start? (fs : FileSystem) (path : Path) : Option (Location × List Name) :=
  if path.isAbsolute then some ([], path.segments)
  else
    match fs.workingDir with
    | .existing here => some (here, path.segments)
    | .removed parent =>
      match path.segments.dropWhile (· = [dot]) with
      | [] => none
      | name :: rest => if name = [dot, dot] then some (parent, rest) else none

/-- Whether the operating system looks at a path at all. -/
structure Accepts (path : Path) : Prop where
  not_mem_zero : 0 ∉ path.bytes
  ne_nil : path.bytes ≠ []
  length_le : path.bytes.length ≤ maxPath

/-- A path leads to a location, with a number of links left that could be followed. -/
def Reaches (fs : FileSystem) (path : Path) (links : Nat) (location : Location) : Prop :=
  ∃ start names, fs.start? path = some (start, names) ∧ fs.entryAt? start ≠ none ∧
    Leads fs maxLinks start names links location

variable {fs : FileSystem} {ending : Ending} {path : Path} {name : Name} {links : Nat}
  {location : Location}

/-- From a directory that was removed only two dots lead on, after any number of single dots. -/
theorem walkFromRemoved_eq (root : Node) (parent : Location) (slash : Bool) (names : List Name) :
    walkFromRemoved root ending parent slash names =
      match names.dropWhile (· = [dot]) with
      | [] => .ok ⟨parent ++ [[]], some (.dir []), slash⟩
      | name :: rest =>
        if name = [dot, dot] then walkFrom root ending parent rest slash
        else if rest = [] ∧ ending = .create ∧ slash then .error .isDirectory
        else .error .notFound := by
  induction names with
  | nil => rfl
  | cons name rest ih =>
      by_cases hDot : name = [dot]
      · rw [walkFromRemoved, if_pos hDot, ih, List.dropWhile_cons_of_pos (by simpa using hDot)]
      · rw [walkFromRemoved, if_neg hDot, List.dropWhile_cons_of_neg (by simpa using hDot)]

/-- A path leads on from its start. -/
theorem resolve_of_start? {start : Location} {names : List Name} (hAccepts : Accepts path)
    (hStart : fs.start? path = some (start, names)) :
    fs.resolve ending path = walkFrom fs.root ending start names path.endsInSlash := by
  have hZero : path.bytes.contains 0 = false := by simpa using hAccepts.not_mem_zero
  rw [resolve, hZero, if_neg (by simp), if_neg hAccepts.ne_nil,
    if_neg (Nat.not_lt.mpr hAccepts.length_le)]
  rw [start?] at hStart
  by_cases hAbsolute : path.isAbsolute
  · rw [if_pos hAbsolute] at hStart ⊢
    cases hStart
    rfl
  · rw [if_neg hAbsolute] at hStart ⊢
    cases hWorkingDir : fs.workingDir with
    | existing here =>
        rw [hWorkingDir] at hStart
        cases hStart
        rfl
    | removed parent =>
        rw [hWorkingDir] at hStart
        simp only [walkFromRemoved_eq]
        cases hNames : path.segments.dropWhile (· = [dot]) with
        | nil => simp [hNames] at hStart
        | cons first rest =>
            simp only [hNames, Option.ite_none_right_eq_some] at hStart
            obtain ⟨hFirst, hEq⟩ := hStart
            cases hEq
            exact if_pos hFirst

/-- A name after a path comes last among the names to walk along. -/
theorem start?_join (hName : name.IsProper) (fs : FileSystem) (path : Path) :
    fs.start? (path.join ⟨name⟩) =
      (fs.start? path).map fun (start, names) => (start, names ++ [name]) := by
  rw [start?, start?, Path.isAbsolute_join hName, Path.segments_join hName]
  cases path.isAbsolute with
  | true => rfl
  | false =>
      cases fs.workingDir with
      | existing here => rfl
      | removed parent =>
          have hDrop : (path.segments ++ [name]).dropWhile (· = [dot]) =
              path.segments.dropWhile (· = [dot]) ++ [name] := by
            rw [List.dropWhile_append]
            split
            · rename_i hEmpty
              rw [List.isEmpty_iff.mp hEmpty, List.dropWhile_cons_of_neg (by simpa using hName.ne_dot)]
              rfl
            · rfl
          simp only [hDrop, Bool.false_eq_true, if_false]
          cases path.segments.dropWhile (· = [dot]) with
          | nil => simp [hName.ne_dots]
          | cons first rest =>
              simp only [List.cons_append]
              split <;> rfl

/-- A path that leads anywhere is one that is looked at. -/
theorem accepts_of_resolve {spot : Spot} (h : fs.resolve ending path = .ok spot) :
    Accepts path := by
  rw [resolve] at h
  by_cases hZero : path.bytes.contains 0
  · rw [if_pos hZero] at h
    cases h
  by_cases hEmpty : path.bytes = []
  · rw [if_neg hZero, if_pos hEmpty] at h
    cases h
  by_cases hLength : maxPath < path.bytes.length
  · rw [if_neg hZero, if_neg hEmpty, if_pos hLength] at h
    cases h
  exact ⟨by simpa using hZero, hEmpty, Nat.not_lt.mp hLength⟩

/-- A path that does not lead on from its start stays in a working directory that was removed. -/
theorem eq_of_resolve_removed {spot : Spot} (hStart : fs.start? path = none)
    (h : fs.resolve ending path = .ok spot) :
    (∀ name ∈ path.segments, name = [dot]) ∧ spot.node? = some (.dir []) := by
  have hAccepts := accepts_of_resolve h
  have hZero : path.bytes.contains 0 = false := by simpa using hAccepts.not_mem_zero
  rw [resolve, hZero, if_neg (by simp), if_neg hAccepts.ne_nil,
    if_neg (Nat.not_lt.mpr hAccepts.length_le)] at h
  rw [start?] at hStart
  by_cases hAbsolute : path.isAbsolute
  · simp [hAbsolute] at hStart
  rw [if_neg hAbsolute] at h hStart
  cases hWorkingDir : fs.workingDir with
  | existing here => simp [hWorkingDir] at hStart
  | removed parent =>
      rw [hWorkingDir] at h hStart
      simp only [walkFromRemoved_eq] at h
      cases hNames : path.segments.dropWhile (· = [dot]) with
      | nil =>
          rw [hNames] at h
          cases h
          exact ⟨by simpa using List.dropWhile_eq_nil_iff.mp hNames, rfl⟩
      | cons first rest =>
          have hFirst : first ≠ [dot, dot] := by simpa [hNames] using hStart
          rw [hNames] at h
          simp only [if_neg hFirst] at h
          split at h <;> cases h

/-- A path leads on from its start, or to a working directory that was removed. -/
theorem walkFrom_of_resolve {spot : Spot} (h : fs.resolve ending path = .ok spot) :
    (∃ start names, fs.start? path = some (start, names) ∧
      walkFrom fs.root ending start names path.endsInSlash = .ok spot) ∨
      spot.node? = some (.dir []) := by
  cases hStart : fs.start? path with
  | some first =>
      obtain ⟨start, names⟩ := first
      rw [resolve_of_start? (accepts_of_resolve h) hStart] at h
      exact .inl ⟨start, names, rfl, h⟩
  | none => exact .inr (eq_of_resolve_removed hStart h).2

/-- From a directory that was removed, nothing but two dots leads anywhere. -/
theorem start?_of_resolve_join (hName : name.IsProper) {spot : Spot}
    (h : fs.resolve ending (path.join ⟨name⟩) = .ok spot) : fs.start? path ≠ none := by
  intro hStart
  have hJoin : fs.start? (path.join ⟨name⟩) = none := by
    rw [start?_join hName, hStart, Option.map_none]
  exact hName.ne_dot ((eq_of_resolve_removed hJoin h).1 name (by simp [Path.segments_join hName]))

/-- What is found at a path is what it reaches. -/
theorem exists_reaches_of_resolve {spot : Spot} {node : Node} (hStart : fs.start? path ≠ none)
    (h : fs.resolve .follow path = .ok spot) (hNode : spot.node? = some node) :
    ∃ links, Reaches fs path links spot.location ∧ fs.root.at? spot.location = some node := by
  obtain ⟨⟨start, names⟩, hSome⟩ := Option.ne_none_iff_exists'.mp hStart
  rw [resolve_of_start? (accepts_of_resolve h) hSome] at h
  obtain ⟨trail, hTrail, -, hWalk⟩ := exists_walk_of_walkFrom h
  obtain ⟨links, hLeads, hAt⟩ := leads_of_walk names hTrail hWalk hNode
  exact ⟨links, ⟨start, names, hSome, by simp [entryAt?_of_to? hTrail], hLeads⟩, hAt⟩

/-- A path with a status leads to the node that it shows. -/
theorem exists_resolve_of_status {node : Node} (h : fs.status path = .ok node) :
    ∃ spot, fs.resolve .follow path = .ok spot ∧ spot.node? = some node := by
  obtain ⟨spot, hResolve, hFound⟩ := bind_eq_ok.mp h
  refine ⟨spot, hResolve, ?_⟩
  split at hFound
  next found hNode =>
    cases hFound
    exact hNode
  next => cases hFound

/-- The names to walk along are the last segments of the path. -/
theorem suffix_of_start? {start : Location} {names : List Name}
    (h : fs.start? path = some (start, names)) : names <:+ path.segments := by
  rw [start?] at h
  by_cases hAbsolute : path.isAbsolute
  · rw [if_pos hAbsolute] at h
    cases h
    exact List.suffix_refl _
  · rw [if_neg hAbsolute] at h
    cases hWorkingDir : fs.workingDir with
    | existing here =>
        rw [hWorkingDir] at h
        cases h
        exact List.suffix_refl _
    | removed parent =>
        rw [hWorkingDir] at h
        have hDrop := List.dropWhile_suffix (fun name => decide (name = [dot])) (l := path.segments)
        cases hNames : path.segments.dropWhile (· = [dot]) with
        | nil => simp [hNames] at h
        | cons first rest =>
            simp only [hNames, Option.ite_none_right_eq_some] at h
            obtain ⟨-, hEq⟩ := h
            cases hEq
            exact (List.suffix_cons first names).trans (hNames ▸ hDrop)

/-- A path that leads to something other than a directory ends in a name. -/
theorem exists_last_name {node : Node} (h : fs.status path = .ok node) (hDir : ¬node.isDir) :
    ∃ name : Name, path.segments.getLast? = some name ∧ name.IsProper := by
  obtain ⟨spot, hResolve, hNode⟩ := exists_resolve_of_status h
  rcases walkFrom_of_resolve hResolve with ⟨start, names, hStart, hWalkFrom⟩ | hRemoved
  · obtain ⟨trail, hTrail, hTrailDir, hWalk⟩ := exists_walk_of_walkFrom hWalkFrom
    obtain ⟨links, hLeads, hAt⟩ := leads_of_walk names hTrail hWalk hNode
    have hEntry : fs.entryAt? spot.location ≠ some .dir := by
      rw [entryAt?, at?, hAt, Option.map_some]
      simpa using hDir
    rcases List.eq_nil_or_concat names with rfl | ⟨before, last, rfl⟩
    · cases hLeads
      rw [entryAt?_of_to? hTrail] at hEntry
      exact absurd (congrArg some ((Node.entry_eq_dir_iff _).mpr hTrailDir)) hEntry
    · rw [List.concat_eq_append] at hLeads hStart
      obtain ⟨above, hSegments⟩ := suffix_of_start? hStart
      obtain ⟨hDot, hDots⟩ := hLeads.ne_dots_of_last hEntry
      have hLast : path.segments.getLast? = some last := by
        rw [← hSegments, ← List.append_assoc, List.getLast?_concat]
      exact ⟨last, hLast,
        Path.isProper_of_mem_segments (List.mem_of_getLast? hLast) hDot hDots⟩
  · obtain rfl := Option.some_inj.mp (hNode.symm.trans hRemoved)
    exact absurd rfl hDir

/-- What the status of a path that ends in a name shows is what the path reaches. -/
theorem exists_reaches_of_status_join {node : Node} (hName : name.IsProper)
    (h : fs.status (path.join ⟨name⟩) = .ok node) :
    ∃ links location, Reaches fs (path.join ⟨name⟩) links location ∧
      fs.root.at? location = some node := by
  obtain ⟨spot, hResolve, hNode⟩ := exists_resolve_of_status h
  have hStart : fs.start? (path.join ⟨name⟩) ≠ none := by
    have hPath := start?_of_resolve_join hName hResolve
    rw [start?_join hName]
    simpa using hPath
  obtain ⟨links, hReaches⟩ := exists_reaches_of_resolve hStart hResolve hNode
  exact ⟨links, spot.location, hReaches⟩

namespace Reaches

/-- A path reaches one location at most, with one number of links left. -/
theorem unique {links' : Nat} {location' : Location} (h : Reaches fs path links location)
    (h' : Reaches fs path links' location') : links = links' ∧ location = location' := by
  obtain ⟨start, names, hStart, -, hLeads⟩ := h
  obtain ⟨start', names', hStart', -, hLeads'⟩ := h'
  rw [hStart, Option.some_inj, Prod.mk.injEq] at hStart'
  obtain ⟨rfl, rfl⟩ := hStart'
  exact hLeads.unique hLeads'

/-- A path that reaches a directory leads to one, if the operating system looks at it at all. -/
theorem isDir_of_accepts (h : Reaches fs path links location) (hDir : fs.entryAt? location = some .dir)
    (hAccepts : Accepts path) : fs.isDir path := by
  obtain ⟨start, names, hStart, hFound, hLeads⟩ := h
  obtain ⟨_, hFound⟩ := Option.ne_none_iff_exists'.mp hFound
  obtain ⟨_, hNode, -⟩ := Option.map_eq_some_iff.mp hFound
  obtain ⟨trail, hTrail, -⟩ := Trail.exists_to? hNode
  obtain ⟨spot, node, hWalk, hSpot, hIsDir⟩ :=
    exists_walk_of_leads hLeads hTrail hDir path.endsInSlash
  have hResolve : fs.resolve .follow path = .ok spot := by
    rw [resolve_of_start? hAccepts hStart,
      walkFrom_of_isDir hTrail (isDir_of_to? hTrail (hLeads.entryAt?_start hDir))]
    exact hWalk
  have hStatus : fs.status path = .ok node := bind_eq_ok.mpr ⟨spot, hResolve, by rw [hSpot]⟩
  rw [FileSystem.isDir, hStatus]
  exact hIsDir

/-- What a path reaches, the path is walked to before the name after it. -/
theorem resolve_join (h : Reaches fs path links location) (hName : name.IsProper)
    (hAccepts : Accepts (path.join ⟨name⟩)) :
    ∃ trail, Trail.to? fs.root location = some trail ∧
      fs.resolve ending (path.join ⟨name⟩) = walk fs.root ending links trail [name] false := by
  obtain ⟨start, names, hStart, hFound, hLeads⟩ := h
  have hJoin : fs.start? (path.join ⟨name⟩) = some (start, names ++ [name]) := by
    rw [start?_join hName, hStart, Option.map_some]
  obtain ⟨node, hNode⟩ := Option.ne_none_iff_exists'.mp hFound
  rw [entryAt?, Option.map_eq_some_iff] at hNode
  obtain ⟨node, hNode, -⟩ := hNode
  obtain ⟨trail, hTrail, -⟩ := Trail.exists_to? hNode
  obtain ⟨first, rest, hNames⟩ := List.exists_cons_of_ne_nil (List.concat_ne_nil name names)
  rw [resolve_of_start? hAccepts hJoin, Path.endsInSlash_join hName, hNames, walkFrom_cons hTrail,
    ← hNames]
  exact walk_append_of_leads hLeads hTrail (List.cons_ne_nil name [])

/-- A path followed by a name leads through the path to the name. -/
theorem exists_of_join (hName : name.IsProper)
    (h : Reaches fs (path.join ⟨name⟩) links location) :
    ∃ between middle, Reaches fs path between middle ∧
      Leads fs between middle [name] links location := by
  obtain ⟨start, names, hJoin, hFound, hLeads⟩ := h
  rw [start?_join hName, Option.map_eq_some_iff] at hJoin
  obtain ⟨⟨start', before⟩, hStart, hEq⟩ := hJoin
  obtain ⟨rfl, rfl⟩ := Prod.mk.inj hEq
  obtain ⟨between, middle, hBefore, hLast⟩ := hLeads.exists_of_append
  exact ⟨between, middle, ⟨start', before, hStart, hFound, hBefore⟩, hLast⟩

/-- An entry of the directory that a path reaches is reached by the path and its name, unless it is
a link. -/
theorem join (h : Reaches fs path links location) (hName : name.IsProper)
    (hLength : name.length ≤ maxName) {found : Entry}
    (hFound : fs.entryAt? (location ++ [name]) = some found)
    (hLink : ∀ target, found ≠ .link target) :
    Reaches fs (path.join ⟨name⟩) links (location ++ [name]) := by
  obtain ⟨start, names, hStart, hStartFound, hLeads⟩ := h
  refine ⟨start, names ++ [name], by rw [start?_join hName, hStart, Option.map_some], hStartFound,
    hLeads.trans ?_⟩
  exact .entry hName.ne_dot hName.ne_dots hLength hFound hLink (.nil _ _)

/-- A path to a directory still leads there when directories and links are kept. -/
theorem of_keepsDirs {fs' : FileSystem} (h : Reaches fs path links location)
    (hDir : fs.entryAt? location = some .dir) (hKeeps : KeepsDirs fs fs')
    (hWorkingDir : fs'.workingDir = fs.workingDir) : Reaches fs' path links location := by
  obtain ⟨start, names, hStart, -, hLeads⟩ := h
  have hStartDir := hLeads.entryAt?_start hDir
  refine ⟨start, names, ?_, by simp [hKeeps.dir _ hStartDir], hLeads.of_keepsDirs hKeeps hDir⟩
  rw [← hStart, start?, start?, hWorkingDir]

end Reaches

end FileSystem

end ExportKit
